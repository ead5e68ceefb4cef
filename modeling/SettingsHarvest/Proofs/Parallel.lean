import Mathlib.Data.List.Forall2
import SettingsHarvest.Evaluation
import SettingsHarvest.Proofs.Attempt

/-! Two readings side by side.

Two steps run in parallel if both come to results that are related, or both meet the same fault. What
is built from parallel steps is parallel again, whichever way it goes through lists: there is one lemma
for each. Two outcomes are alike if both are values that are related, or both are failures of one kind;
their messages may differ. -/
namespace SettingsHarvest
open Syntax

variable {α α' β β' : Type} {P : α → α' → Prop} {Q : β → β' → Prop}

/-- Related results, or the same fault. -/
inductive Parallel (P : α → α' → Prop) : Attempt α → Attempt α' → Prop where
  | ok {a : α} {a' : α'} : P a a' → Parallel P (.ok a) (.ok a')
  | fault {f : Fault} : Parallel P (.error f) (.error f)

/-- Related values, or failures of the same kind. -/
inductive Outcome.Alike (P : α → α' → Prop) : Outcome α → Outcome α' → Prop where
  | value {a : α} {a' : α'} : P a a' → Outcome.Alike P (.ok a) (.ok a')
  | failure {f f' : Failure} : f.kind = f'.kind → Outcome.Alike P (.error f) (.error f')

/-! ### Options and lists -/

section Related

theorem option_rel_cases {o : Option α} {o' : Option α'} (h : Option.Rel P o o') :
    o = none ∧ o' = none ∨ ∃ a a', o = some a ∧ o' = some a' ∧ P a a' := by
  cases h with
  | none => exact .inl ⟨rfl, rfl⟩
  | some ha => exact .inr ⟨_, _, rfl, rfl, ha⟩

theorem option_rel_eq {o o' : Option α} (h : Option.Rel Eq o o') : o = o' := by
  cases h with
  | none => rfl
  | some ha => rw [ha]

theorem option_rel_of_eq {o o' : Option α} (h : o = o') : Option.Rel Eq o o' := by
  cases h
  cases o with
  | none => exact .none
  | some a => exact .some rfl

theorem option_rel_isSome {o : Option α} {o' : Option α'} (h : Option.Rel P o o') :
    o.isSome = o'.isSome := by
  cases h <;> rfl

theorem option_rel_mono {P' : α → α' → Prop} {o : Option α} {o' : Option α'} (h : Option.Rel P o o')
    (hP : ∀ a a', P a a' → P' a a') : Option.Rel P' o o' := by
  cases h with
  | none => exact .none
  | some ha => exact .some (hP _ _ ha)

theorem option_rel_map {f : α → β} {f' : α' → β'} {o : Option α} {o' : Option α'}
    (h : Option.Rel P o o') (hf : ∀ a a', P a a' → Q (f a) (f' a')) :
    Option.Rel Q (o.map f) (o'.map f') := by
  cases h with
  | none => exact .none
  | some ha => exact .some (hf _ _ ha)

theorem option_rel_filter {f : α → Bool} {f' : α' → Bool} {o : Option α} {o' : Option α'}
    (h : Option.Rel P o o') (hf : ∀ a a', P a a' → f a = f' a') :
    Option.Rel P (o.filter f) (o'.filter f') := by
  cases h with
  | none => exact .none
  | some ha =>
    rw [Option.filter_some, Option.filter_some, hf _ _ ha]
    split
    · exact .some ha
    · exact .none

variable {items : List α} {items' : List α'}

theorem forall₂_filter {f : α → Bool} {f' : α' → Bool} (h : List.Forall₂ P items items')
    (hf : ∀ a a', P a a' → f a = f' a') : List.Forall₂ P (items.filter f) (items'.filter f') :=
  List.rel_filter (fun a a' ha => by simp only [hf a a' ha]) h

theorem forall₂_find {f : α → Bool} {f' : α' → Bool} (h : List.Forall₂ P items items')
    (hf : ∀ a a', P a a' → f a = f' a') : Option.Rel P (items.find? f) (items'.find? f') := by
  induction h with
  | nil => exact .none
  | cons ha _ ih =>
    rw [List.find?_cons, List.find?_cons, hf _ _ ha]
    split
    · exact .some ha
    · exact ih

/-- Every item on one side has a partner on the other. -/
theorem exists_of_mem_forall₂ (h : List.Forall₂ P items items') {a : α} (ha : a ∈ items) :
    ∃ a' ∈ items', P a a' := by
  induction h with
  | nil => cases ha
  | cons hab _ ih =>
    rcases List.mem_cons.1 ha with rfl | ha
    · exact ⟨_, List.mem_cons_self, hab⟩
    · obtain ⟨a', ha', hrel⟩ := ih ha
      exact ⟨a', List.mem_cons_of_mem _ ha', hrel⟩

/-- Items and what a step that can fail makes of them. -/
theorem forall₂_of_mapM {f : α → Option α'} (h : items.mapM f = some items') :
    List.Forall₂ (fun a a' => f a = some a') items items' := by
  induction items generalizing items' with
  | nil =>
    cases h
    exact .nil
  | cons a rest ih =>
    rw [List.mapM_cons] at h
    obtain ⟨a', ha', h⟩ := Option.bind_eq_some_iff.1 h
    obtain ⟨others, hothers, h⟩ := Option.bind_eq_some_iff.1 h
    cases h
    exact .cons ha' (ih hothers)

theorem forall₂_of_mapM_eq_ok {f : α → Attempt α'} (h : items.mapM f = .ok items') :
    List.Forall₂ (fun a a' => f a = .ok a') items items' := by
  induction items generalizing items' with
  | nil =>
    cases pure_eq_ok.1 h
    exact .nil
  | cons a rest ih =>
    rw [List.mapM_cons] at h
    obtain ⟨a', ha', h⟩ := bind_eq_ok.1 h
    obtain ⟨others, hothers, h⟩ := bind_eq_ok.1 h
    cases pure_eq_ok.1 h
    exact .cons ha' (ih hothers)

theorem forall₂_getElem (h : List.Forall₂ P items items') (i : Nat) :
    Option.Rel P items[i]? items'[i]? := by
  induction h generalizing i with
  | nil => exact .none
  | cons ha _ ih =>
    cases i with
    | zero => exact .some ha
    | succ i => exact ih i

theorem forall₂_zipIdx (h : List.Forall₂ P items items') (start : Nat) :
    List.Forall₂ (fun e e' => P e.1 e'.1 ∧ e.2 = e'.2) (items.zipIdx start) (items'.zipIdx start) := by
  induction h generalizing start with
  | nil => exact .nil
  | cons ha _ ih =>
    rw [List.zipIdx_cons, List.zipIdx_cons]
    exact .cons ⟨ha, rfl⟩ (ih (start + 1))

theorem forall₂_isEmpty (h : List.Forall₂ P items items') : items.isEmpty = items'.isEmpty := by
  cases h <;> rfl

theorem forall₂_any {f : α → Bool} {f' : α' → Bool} (h : List.Forall₂ P items items')
    (hf : ∀ a a', P a a' → f a = f' a') : items.any f = items'.any f' := by
  induction h with
  | nil => rfl
  | cons ha _ ih => rw [List.any_cons, List.any_cons, hf _ _ ha, ih]

theorem forall₂_all {f : α → Bool} {f' : α' → Bool} (h : List.Forall₂ P items items')
    (hf : ∀ a a', P a a' → f a = f' a') : items.all f = items'.all f' := by
  induction h with
  | nil => rfl
  | cons ha _ ih => rw [List.all_cons, List.all_cons, hf _ _ ha, ih]

theorem forall₂_mapM_eq {f : α → Option β} {f' : α' → Option β} (h : List.Forall₂ P items items')
    (hf : ∀ a a', P a a' → f a = f' a') : items.mapM f = items'.mapM f' := by
  induction h with
  | nil => rfl
  | cons ha _ ih => rw [List.mapM_cons, List.mapM_cons, hf _ _ ha, ih]

theorem forall₂_getLast (h : List.Forall₂ P items items') :
    Option.Rel P items.getLast? items'.getLast? := by
  rw [List.getLast?_eq_getElem?, List.getLast?_eq_getElem?, ← h.length_eq]
  exact forall₂_getElem h _

end Related

namespace Parallel

/-! ### Steps -/

theorem refl (x : Attempt α) : Parallel Eq x x := by
  cases x with
  | ok a => exact .ok rfl
  | error f => exact .fault

theorem of_eq {x y : Attempt α} (h : x = y) : Parallel Eq x y := h ▸ refl x

theorem eq {x y : Attempt α} (h : Parallel Eq x y) : x = y := by
  cases h with
  | ok heq => rw [heq]
  | fault => rfl

theorem mono {P' : α → α' → Prop} (hP : ∀ a a', P a a' → P' a a') {x : Attempt α} {x' : Attempt α'}
    (h : Parallel P x x') : Parallel P' x x' := by
  cases h with
  | ok ha => exact .ok (hP _ _ ha)
  | fault => exact .fault

theorem bind {x : Attempt α} {x' : Attempt α'} {f : α → Attempt β} {f' : α' → Attempt β'}
    (h : Parallel P x x') (hf : ∀ a a', P a a' → Parallel Q (f a) (f' a')) :
    Parallel Q (x >>= f) (x' >>= f') := by
  cases h with
  | ok ha => exact hf _ _ ha
  | fault => exact .fault

/-- The same step is taken first. -/
theorem same_bind {γ : Type} (x : Attempt γ) {f : γ → Attempt β} {f' : γ → Attempt β'}
    (hf : ∀ a, x = .ok a → Parallel Q (f a) (f' a)) : Parallel Q (x >>= f) (x >>= f') := by
  cases x with
  | ok a => exact hf a rfl
  | error f => exact .fault

/-- Where related results lead to the same, nothing tells the steps apart. -/
theorem bind_eq {γ : Type} {x : Attempt α} {x' : Attempt α'} {f : α → Attempt γ} {f' : α' → Attempt γ}
    (h : Parallel P x x') (hf : ∀ a a', P a a' → f a = f' a') : x >>= f = x' >>= f' := by
  cases h with
  | ok ha => exact hf _ _ ha
  | fault => rfl

/-- One condition chooses on both sides. -/
theorem ite {c : Prop} [Decidable c] {x y : Attempt α} {x' y' : Attempt α'} (hx : c → Parallel P x x')
    (hy : ¬c → Parallel P y y') : Parallel P (if c then x else y) (if c then x' else y') := by
  split
  · next hc => exact hx hc
  · next hc => exact hy hc

/-- Either way a related step is taken first. -/
theorem ite_bind {c : Prop} [Decidable c] {x y : Attempt α} {x' y' : Attempt α'} {f : α → Attempt β}
    {f' : α' → Attempt β'} (hx : c → Parallel P x x') (hy : ¬c → Parallel P y y')
    (hf : ∀ a a', P a a' → Parallel Q (f a) (f' a')) :
    Parallel Q (if c then x >>= f else y >>= f) (if c then x' >>= f' else y' >>= f') :=
  .ite (fun hc => (hx hc).bind hf) fun hc => (hy hc).bind hf

theorem map {x : Attempt α} {x' : Attempt α'} {g : α → β} {g' : α' → β'} (h : Parallel P x x')
    (hg : ∀ a a', P a a' → Q (g a) (g' a')) : Parallel Q (g <$> x) (g' <$> x') := by
  cases h with
  | ok ha => exact .ok (hg _ _ ha)
  | fault => exact .fault

/-! ### Lists -/

variable {items : List α} {items' : List α'}

theorem mapM {f : α → Attempt β} {f' : α' → Attempt β'} (h : List.Forall₂ P items items')
    (hf : ∀ a a', P a a' → Parallel Q (f a) (f' a')) :
    Parallel (List.Forall₂ Q) (items.mapM f) (items'.mapM f') := by
  induction h with
  | nil => exact .ok .nil
  | cons ha _ ih =>
    rw [List.mapM_cons, List.mapM_cons]
    exact (hf _ _ ha).bind fun _ _ hb => ih.bind fun _ _ hbs => .ok (.cons hb hbs)

theorem foldlM {f : β → α → Attempt β} {f' : β' → α' → Attempt β'} {b : β} {b' : β'}
    (h : List.Forall₂ P items items') (hb : Q b b')
    (hf : ∀ b b' a a', Q b b' → P a a' → Parallel Q (f b a) (f' b' a')) :
    Parallel Q (items.foldlM f b) (items'.foldlM f' b') := by
  induction h generalizing b b' with
  | nil => exact .ok hb
  | cons ha _ ih =>
    rw [List.foldlM_cons, List.foldlM_cons]
    exact (hf _ _ _ _ hb ha).bind fun _ _ hb => ih hb

theorem firstSome {f : α → Attempt (Option β)} {f' : α' → Attempt (Option β')}
    (h : List.Forall₂ P items items') (hf : ∀ a a', P a a' → Parallel (Option.Rel Q) (f a) (f' a')) :
    Parallel (Option.Rel Q) (Syntax.firstSome f items) (Syntax.firstSome f' items') := by
  induction h with
  | nil => exact .ok .none
  | cons ha _ ih =>
    unfold Syntax.firstSome
    generalize hx : f _ = x
    generalize hx' : f' _ = x'
    have hstep := hx ▸ hx' ▸ hf _ _ ha
    cases hstep with
    | fault => exact .fault
    | ok hb =>
      cases hb with
      | none => exact ih
      | some hb => exact .ok (.some hb)

end Parallel
end SettingsHarvest
