import SettingsHarvest.Proofs.Correspondence

/-! Evaluation above its depth bound.

An evaluation stays above the depth bound if it would come to the same whatever stood there
(`Project.StaysAbove`). With a fault there, an evaluation that gets to the bound meets that fault and
shows in no other way; so two evaluations of which one may go deeper are compared `Until` the first meets
it, and two faults tell a fault that was met above from the one at the bound
(`Project.StaysAbove.parallel`). -/
namespace SettingsHarvest
open Syntax Project

/-! ### Another bound -/

/-- Evaluation with another answer at the depth bound. -/
def Project.evaluateOver (p : Project) (bound : Evaluator) : Nat → Evaluator
  | 0 => bound
  | depth + 1 => fun s b => p.valueOf (p.evaluateOver bound depth) b s.unwrap

theorem Project.evaluateWithin_eq (p : Project) (depth : Nat) :
    p.evaluateWithin depth = p.evaluateOver (fun s _ => Evaluation.fail (.tooDeep s.text)) depth := by
  induction depth with
  | zero => rfl
  | succ depth ih =>
    funext s b
    rw [evaluateWithin, evaluateOver, ih]

theorem Project.evaluateOver_add (p : Project) (bound : Evaluator) (more depth : Nat) :
    p.evaluateOver (p.evaluateOver bound more) depth = p.evaluateOver bound (depth + more) := by
  induction depth with
  | zero => rw [Nat.zero_add, evaluateOver]
  | succ depth ih => rw [Nat.add_right_comm, evaluateOver, evaluateOver, ih]

/-- The evaluation of an expression never gets to the depth bound: whatever stood there, it would come to
the same. -/
def Project.StaysAbove (p : Project) (s : Site) (b : Bindings) : Prop :=
  ∀ bound, p.evaluateOver bound evaluationDepth s b = p.evaluate s b

/-- A fault at the bound. -/
def stopping (f : Fault) : Evaluator := fun _ _ => .error f

theorem Correspondence.evaluateOver {p p' : Project} {Same Init : Site → Site → Prop}
    (c : Correspondence p p' Same Init) (f : Fault) (depth : Nat) :
    EvaluatesAlike Same (p.evaluateOver (stopping f) depth) (p'.evaluateOver (stopping f) depth) := by
  induction depth with
  | zero => exact fun _ _ _ _ _ _ => .fault
  | succ depth ih => exact fun _ _ _ _ h hb => c.valueOf ih h hb

/-! ### Until a fault -/

section Until

variable {α α' β β' : Type} {P : α → α' → Prop} {Q : β → β' → Prop} {f : Fault}

/-- In parallel, unless the first of two steps meets a fault. -/
inductive Until (f : Fault) (P : α → α' → Prop) : Attempt α → Attempt α' → Prop where
  | stopped {x' : Attempt α'} : Until f P (.error f) x'
  | parallel {x : Attempt α} {x' : Attempt α'} : Parallel P x x' → Until f P x x'

namespace Until

theorem bind {x : Attempt α} {x' : Attempt α'} {g : α → Attempt β} {g' : α' → Attempt β'}
    (h : Until f P x x') (hg : ∀ a a', P a a' → Until f Q (g a) (g' a')) :
    Until f Q (x >>= g) (x' >>= g') := by
  cases h with
  | stopped => exact .stopped
  | parallel h =>
    cases h with
    | ok ha => exact hg _ _ ha
    | fault => exact .parallel .fault

theorem same_bind {γ : Type} (x : Attempt γ) {g : γ → Attempt β} {g' : γ → Attempt β'}
    (hg : ∀ a, Until f Q (g a) (g' a)) : Until f Q (x >>= g) (x >>= g') :=
  (Until.parallel (Parallel.refl x)).bind fun a _ heq => heq ▸ hg a

theorem refl (x : Attempt α) : Until f Eq x x := .parallel (.refl x)

theorem of_bind {x x' : Attempt α} {g g' : α → Attempt β} (h : Until f Eq x x')
    (hg : ∀ a, Until f Eq (g a) (g' a)) : Until f Eq (x >>= g) (x' >>= g') :=
  h.bind fun a _ heq => heq ▸ hg a

theorem foldlM {g g' : β → α → Attempt β} (hg : ∀ b a, Until f Eq (g b a) (g' b a)) (items : List α)
    (b : β) : Until f Eq (items.foldlM g b) (items.foldlM g' b) := by
  induction items generalizing b with
  | nil => exact refl _
  | cons a rest ih =>
    rw [List.foldlM_cons, List.foldlM_cons]
    exact (hg b a).of_bind ih

/-- What is parallel until either of two faults is parallel. -/
theorem elim {f' : Fault} (hne : f ≠ f') {x : Attempt α} {x' : Attempt α'} (h : Until f P x x')
    (h' : Until f' P x x') : Parallel P x x' := by
  cases h with
  | parallel h => exact h
  | stopped =>
    generalize hx : (Except.error f : Attempt α) = x at h'
    cases h' with
    | stopped => exact absurd (Except.error.inj hx) hne
    | parallel h' => exact hx ▸ h'

end Until
end Until

/-! ### Evaluations that do not meet the bound -/

section Bound

variable {p : Project} {f : Fault} {recur recur' : Evaluator} {s : Site} {b : Bindings}

/-- Another evaluator, which answers the same until the first meets a fault. -/
def Outlasts (f : Fault) (recur recur' : Evaluator) : Prop :=
  ∀ s b, Until f Eq (recur s b) (recur' s b)

theorem Outlasts.partValue (h : Outlasts f recur recur') (r : Role) :
    Until f Eq (partValue recur b s r) (partValue recur' b s r) := by
  unfold SettingsHarvest.partValue
  split
  · exact h _ _
  · exact .refl _

theorem Outlasts.binaryValue (h : Outlasts f recur recur') :
    Until f Eq (binaryValue recur b s) (binaryValue recur' b s) := by
  unfold SettingsHarvest.binaryValue
  split
  · exact .refl _
  · exact (h.partValue .left).of_bind fun left => (h.partValue .right).of_bind fun right => .refl _

theorem Outlasts.unaryValue (h : Outlasts f recur recur') :
    Until f Eq (unaryValue recur b s) (unaryValue recur' b s) := by
  unfold SettingsHarvest.unaryValue
  split
  · exact .refl _
  · exact (h.partValue .argument).of_bind fun argument => .refl _

theorem Outlasts.enumMembersBy (h : Outlasts f recur recur') (enumeration : Site) :
    Until f Eq (enumMembersBy recur enumeration) (enumMembersBy recur' enumeration) := by
  unfold SettingsHarvest.enumMembersBy
  split
  · exact .refl _
  · refine (Until.foldlM (fun r member => ?_) _ _).of_bind fun r => .refl _
    unfold EnumReading.add
    dsimp only
    split
    · exact .refl _
    · refine .same_bind _ fun name => ?_
      split
      · exact .refl _
      · exact (h _ _).of_bind fun o => .refl _

theorem Outlasts.accessValue (h : Outlasts f recur recur') (base : Site) (key : String) :
    Until f Eq (p.accessValue recur b base key) (p.accessValue recur' b base key) := by
  have hmember : Until f Eq (p.declaredEnumMember? recur b base.unwrap key)
      (p.declaredEnumMember? recur' b base.unwrap key) := by
    unfold declaredEnumMember?
    split
    · refine .same_bind _ fun d => ?_
      split
      · exact (h.enumMembersBy _).of_bind fun members => .refl _
      · exact .refl _
    · exact .refl _
  rw [accessValue_eq, accessValue_eq]
  refine hmember.of_bind fun member => ?_
  split
  · exact .refl _
  · refine .same_bind _ fun entry => ?_
    cases entry with
    | some e => exact h e []
    | none => exact .refl _

theorem Outlasts.elementValue (h : Outlasts f recur recur') :
    Until f Eq (p.elementValue recur b s) (p.elementValue recur' b s) := by
  unfold Project.elementValue
  refine (h.partValue .index).of_bind fun index => ?_
  split
  · exact h.accessValue _ _
  · split
    · exact .same_bind _ fun key => h.accessValue _ key
    · exact .refl _
  · exact .refl _

theorem Outlasts.nameValue (h : Outlasts f recur recur') :
    Until f Eq (p.nameValue recur b s) (p.nameValue recur' b s) := by
  unfold Project.nameValue
  split
  · exact .refl _
  · exact h _ _
  · refine .same_bind _ fun initializer => ?_
    split
    · exact .refl _
    · exact (h _ _).of_bind fun o => .refl _

theorem Outlasts.valueOf (h : Outlasts f recur recur') :
    Until f Eq (p.valueOf recur b s) (p.valueOf recur' b s) := by
  unfold Project.valueOf
  split
  case h_6 | h_7 => exact h.nameValue
  case h_8 =>
    unfold Project.memberValue
    split
    · exact h.accessValue _ _
    · exact .refl _
  case h_9 => exact h.elementValue
  case h_10 => exact h.binaryValue
  case h_11 => exact h.unaryValue
  all_goals exact .refl _

theorem outlasts_evaluateOver (p : Project) (f : Fault) (bound : Evaluator) (depth : Nat) :
    Outlasts f (p.evaluateOver (stopping f) depth) (p.evaluateOver bound depth) := by
  induction depth with
  | zero => exact fun _ _ => .stopped
  | succ depth ih => exact fun s b => ih.valueOf

/-- An evaluation that has an answer with a fault at the bound does not get there. -/
theorem Project.StaysAbove.of_answer {o : Outcome Value}
    (h : p.evaluateOver (stopping f) evaluationDepth s b = .ok o) : p.StaysAbove s b := by
  have hanswer (bound : Evaluator) : p.evaluateOver bound evaluationDepth s b = .ok o := by
    have hlasts := outlasts_evaluateOver p f bound evaluationDepth s b
    rw [h] at hlasts
    generalize p.evaluateOver bound evaluationDepth s b = x at hlasts
    cases hlasts with
    | parallel hsame =>
      cases hsame with
      | ok heq => rw [heq]
  intro bound
  rw [hanswer bound, evaluate, evaluateWithin_eq, hanswer]

end Bound

/-- Two evaluations that stay above the bound are compared with a fault there, whichever it is. -/
theorem Project.StaysAbove.parallel {p : Project} {s s' : Site} {b b' : Bindings}
    (h : p.StaysAbove s b) (h' : p.StaysAbove s' b')
    (huntil : ∀ f, Until f (Outcome.Alike Eq) (p.evaluateOver (stopping f) evaluationDepth s b)
      (p.evaluateOver (stopping f) evaluationDepth s' b')) :
    Parallel (Outcome.Alike Eq) (p.evaluate s b) (p.evaluate s' b') := by
  have hne : Fault.endlessReference ≠ .closedFile "" := nofun
  refine Until.elim hne ?_ ?_
  · rw [← h (stopping .endlessReference), ← h' (stopping .endlessReference)]
    exact huntil _
  · rw [← h (stopping (.closedFile "")), ← h' (stopping (.closedFile ""))]
    exact huntil _

end SettingsHarvest
