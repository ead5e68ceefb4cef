import SettingsHarvest.Evaluation
import SettingsHarvest.Proofs.Leaves
import SettingsHarvest.Proofs.Mentions
import SettingsHarvest.Syntax.Program

/-! What bindings reach.

Bindings give a meaning to the names that an expression mentions, and to no others: what the expression
refers to is evaluated without them. So two bindings that say the same about the names written in an
expression evaluate it alike, whatever they say about the names in initializers, enumerations and
literals that it leads to. One step looks its bindings up at names of the expression alone and hands
them on to parts of it alone (`valueOf_congr`); the rest is an induction on the depth. -/
namespace SettingsHarvest
open Syntax

/-- Bindings that say the same about every name in an expression. -/
def Site.Agree (s : Site) (b b' : Bindings) : Prop :=
  ∀ name, s.Mentions name → b.lookup name.text = b'.lookup name.text

/-- An evaluator that uses bindings for the names of the expression only. -/
def OwnNames (recur : Evaluator) : Prop := ∀ s b b', Site.Agree s b b' → recur s b = recur s b'

namespace Site.Agree

variable {s : Site} {b b' : Bindings}

theorem part? (h : Site.Agree s b b') {r : Role} {part : Site} (hpart : s.part? r = some part) :
    Site.Agree part b b' := fun name hname => h name (.of_part? hpart hname)

theorem unwrap (h : Site.Agree s b b') : Site.Agree s.unwrap b b' :=
  fun name hname => h name (.of_unwrap hname)

theorem accessParts (h : Site.Agree s b b') {base : Site} {key : String}
    (hparts : s.accessParts? = some (base, key)) : Site.Agree base b b' :=
  fun name hname => h name (.of_accessParts hparts hname)

theorem lookup_eq (h : Site.Agree s b b') (hname : s.isNameUse = true) :
    b.lookup s.text = b'.lookup s.text := h s (.self hname)

end Site.Agree

section Steps

variable {p : Project} {recur : Evaluator} {b b' : Bindings} {s base : Site} {key : String}

/-! ### Operators -/

theorem partValue_congr (hrecur : OwnNames recur) (h : Site.Agree s b b') (r : Role) :
    partValue recur b s r = partValue recur b' s r := by
  unfold partValue
  split
  · next hpart => exact hrecur _ b b' (h.part? hpart)
  · rfl

theorem binaryValue_congr (hrecur : OwnNames recur) (h : Site.Agree s b b') :
    binaryValue recur b s = binaryValue recur b' s := by
  unfold binaryValue
  rw [partValue_congr hrecur h .left, partValue_congr hrecur h .right]

theorem unaryValue_congr (hrecur : OwnNames recur) (h : Site.Agree s b b') :
    unaryValue recur b s = unaryValue recur b' s := by
  unfold unaryValue
  rw [partValue_congr hrecur h .argument]

/-! ### Members and names -/

theorem declaredEnumMember_congr (h : Site.Agree base b b') :
    p.declaredEnumMember? recur b base key = p.declaredEnumMember? recur b' base key := by
  unfold Project.declaredEnumMember?
  by_cases hname : base.hasKind .identifier = true
  · rw [h.lookup_eq (Site.isNameUse_of_identifier hname)]
  · rw [Bool.not_eq_true] at hname
    rw [hname, Bool.false_and, Bool.false_and]

theorem container_congr (h : Site.Agree base b b') : p.container? b base = p.container? b' base := by
  unfold Project.container?
  by_cases hname : base.hasKind .identifier = true
  · rw [h.lookup_eq (Site.isNameUse_of_identifier hname)]
  · rw [if_neg hname, if_neg hname]

/-- What is read from a literal or an enumeration is evaluated without bindings. -/
theorem accessValue_congr (h : Site.Agree base b b') :
    p.accessValue recur b base key = p.accessValue recur b' base key := by
  unfold Project.accessValue
  dsimp only
  rw [declaredEnumMember_congr h.unwrap, container_congr h.unwrap]

theorem memberValue_congr (h : Site.Agree s b b') :
    p.memberValue recur b s = p.memberValue recur b' s := by
  unfold Project.memberValue
  split
  · next hparts => exact accessValue_congr (h.accessParts hparts)
  · rfl

theorem elementValue_congr (hrecur : OwnNames recur) (h : Site.Agree s b b') :
    p.elementValue recur b s = p.elementValue recur b' s := by
  unfold Project.elementValue
  rw [partValue_congr hrecur h .index]
  refine bind_congr fun index => ?_
  split
  · next hobject => exact accessValue_congr (h.part? hobject)
  · next hobject =>
    split
    · exact bind_congr fun key => accessValue_congr (h.part? hobject)
    · rfl
  · rfl

theorem valueOf_of_isNameUse (h : s.isNameUse = true) :
    p.valueOf recur b s = p.nameValue recur b s := by
  unfold Project.valueOf
  rcases Bool.or_eq_true_iff.1 h with h | h <;> rw [Site.hasKind_iff.1 h]

/-- A name's initializer, and an expression that it is bound to, are evaluated without bindings. -/
theorem nameValue_congr (h : Site.Agree s b b') (hname : s.isNameUse = true) :
    p.nameValue recur b s = p.nameValue recur b' s := by
  unfold Project.nameValue
  rw [h.lookup_eq hname]

/-! ### Expressions -/

/-- One step uses bindings for names of the expression only, if the steps it asks for do. -/
theorem valueOf_congr (hrecur : OwnNames recur) (h : Site.Agree s b b') :
    p.valueOf recur b s = p.valueOf recur b' s := by
  unfold Project.valueOf
  split
  · rfl
  · rfl
  · rfl
  · rfl
  · rfl
  · next hkind => exact nameValue_congr h (Site.isNameUse_of_identifier (Site.hasKind_iff.2 hkind))
  · next hkind => exact nameValue_congr h (Site.isNameUse_of_shorthand (Site.hasKind_iff.2 hkind))
  · exact memberValue_congr h
  · exact elementValue_congr hrecur h
  · exact binaryValue_congr hrecur h
  · exact unaryValue_congr hrecur h
  · rfl

end Steps

theorem ownNames_evaluateWithin (p : Project) (depth : Nat) : OwnNames (p.evaluateWithin depth) := by
  induction depth with
  | zero => exact fun s b b' _ => rfl
  | succ depth ih => exact fun s b b' h => valueOf_congr ih h.unwrap

/-- **Bindings never leak.** Bindings that say the same about the names in an expression evaluate it
alike, to the same value, failure or fault; so a name that the expression does not mention can be bound
to anything. -/
theorem bindings_reach_own_names (p : Project) (s : Site) :
    (∀ b b', Site.Agree s b b' → p.evaluate s b = p.evaluate s b') ∧
    ∀ b name bound, (∀ t, s.Mentions t → t.text ≠ name) →
      p.evaluate s ((name, bound) :: b) = p.evaluate s b := by
  have hown : OwnNames p.evaluate := ownNames_evaluateWithin p Project.evaluationDepth
  refine ⟨fun b b' h => hown s b b' h, fun b name bound hfree => hown s _ _ fun t ht => ?_⟩
  have hne : (t.text == name) = false := by simpa using hfree t ht
  rw [List.lookup_cons, hne]

/-- A constant behind another one, which is probed where the first one's name is bound. -/
def behindProgram : Node :=
  .tree .program none
    [constantNode "" "k" (.leaf .number none " " "5"),
     constantNode "\n" "x" (.leaf .identifier none " " "k"), probeNode (.leaf .identifier none "" "x")]

theorem bound_name_behind_constant :
    parse .plain "const k = 5;\nconst x = k;\nprobe(x);" = behindProgram ∧
    ∃ s, firstArgument? behindProgram = some s ∧
      Site.Agree s [("k", .value (.text "bound"))] [] ∧
      bareProject.evaluate s [("k", .value (.text "bound"))] = bareProject.evaluate s [] ∧
      bareProject.evaluate s [] = .ok (.ok (.integer 5)) := by
  obtain ⟨s, hs, hwalk, htext⟩ : ∃ s, firstArgument? behindProgram = some s ∧ s.walk = [s] ∧
      s.text = "x" := ⟨_, rfl, rfl, rfl⟩
  have hagree : Site.Agree s [("k", .value (.text "bound"))] [] := by
    intro name hname
    have hself : name = s := List.mem_singleton.1 (hwalk ▸ hname.below)
    rw [hself, htext]
    rfl
  refine ⟨by decide +kernel, s, hs, hagree, (bindings_reach_own_names bareProject s).1 _ _ hagree, ?_⟩
  cases hs
  rfl

end SettingsHarvest
