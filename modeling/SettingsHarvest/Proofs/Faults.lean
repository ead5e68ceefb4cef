import SettingsHarvest.Proofs.Attempt

/-! How attempts end.

`Ends F P x` says how an attempt `x` can end: with a result that has the property `P`, or with one of
the faults `F`. Steps are put together without looking at what they do, so a function of many steps is
known to end well once each of them is. -/
namespace SettingsHarvest

/-- Every result has a property, and every fault is one of some. -/
structure Ends {α : Type} (F : Fault → Prop) (P : α → Prop) (x : Attempt α) : Prop where
  result : ∀ {a}, x = .ok a → P a
  fault : ∀ {f}, x = .error f → F f

namespace Ends

variable {α β : Type} {F : Fault → Prop} {P P' : α → Prop} {Q : β → Prop} {x : Attempt α}

theorem ok {a : α} (h : P a) : Ends F P (.ok a) where
  result := by
    rintro _ ⟨⟩
    exact h
  fault := nofun

theorem error {f : Fault} (h : F f) : Ends F P (.error f) where
  result := nofun
  fault := by
    rintro _ ⟨⟩
    exact h

theorem mono (h : Ends F P x) (hP : ∀ a, P a → P' a) : Ends F P' x :=
  ⟨fun ha => hP _ (h.result ha), h.fault⟩

theorem weaken {F' : Fault → Prop} (h : Ends F P x) (hF : ∀ f, F f → F' f) : Ends F' P x :=
  ⟨h.result, fun hf => hF _ (h.fault hf)⟩

theorem exists_ok (h : Ends (fun _ => False) P x) :
    ∃ a, x = .ok a ∧ P a := by
  cases x with
  | ok a => exact ⟨a, rfl, h.result rfl⟩
  | error f => exact (h.fault rfl).elim

/-- One step after another. -/
theorem bind {next : α → Attempt β} (h : Ends F P x) (hnext : ∀ a, P a → Ends F Q (next a)) :
    Ends F Q (x >>= next) := by
  cases x with
  | ok a => exact hnext a (h.result rfl)
  | error f => exact error (h.fault rfl)

theorem map {g : α → β} (h : Ends F P x) (hg : ∀ a, P a → Q (g a)) : Ends F Q (x.map g) :=
  h.bind fun a ha => ok (hg a ha)

theorem mapM {f : α → Attempt β} {items : List α} (h : ∀ a ∈ items, Ends F Q (f a)) :
    Ends F (fun results => ∀ b ∈ results, Q b) (items.mapM f) := by
  induction items with
  | nil => exact ok nofun
  | cons a rest ih =>
    rw [List.mapM_cons]
    have hrest := ih fun other hother => h other (List.mem_cons_of_mem a hother)
    refine (h a List.mem_cons_self).bind fun b hb => hrest.bind fun bs hbs => ?_
    exact ok (List.forall_mem_cons.2 ⟨hb, hbs⟩)

/-- What every step keeps holds in the end, if the steps get there. -/
theorem foldlM {f : β → α → Attempt β} {items : List α} {b : β} (hb : Q b)
    (step : ∀ a ∈ items, ∀ b, Q b → Ends F Q (f b a)) : Ends F Q (items.foldlM f b) := by
  induction items generalizing b with
  | nil => exact ok hb
  | cons a rest ih =>
    rw [List.foldlM_cons]
    refine (step a List.mem_cons_self b hb).bind fun next hnext => ih hnext ?_
    exact fun other hother => step other (List.mem_cons_of_mem a hother)

theorem firstSome {f : α → Attempt (Option β)} {items : List α}
    (h : ∀ a ∈ items, Ends F (fun found => ∀ b ∈ found, Q b) (f a)) :
    Ends F (fun found => ∀ b ∈ found, Q b) (Syntax.firstSome f items) := by
  induction items with
  | nil => exact ok nofun
  | cons a rest ih =>
    rw [Syntax.firstSome]
    split
    · exact ih fun other hother => h other (List.mem_cons_of_mem a hother)
    · exact h a List.mem_cons_self

end Ends
end SettingsHarvest
