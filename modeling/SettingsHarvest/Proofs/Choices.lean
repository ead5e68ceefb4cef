import SettingsHarvest.Choices
import SettingsHarvest.Proofs.Assignment
import SettingsHarvest.Proofs.Attempt
import SettingsHarvest.Proofs.Surroundings

/-! What choices are made of.

Choices are collected from options, one step for each that could be read (`add_eq_ok`). A label is put
under the text of its value, so a value with a label has to be one that can be written out; that is all
that can go wrong (`exists_collect_iff`). The value of every option that could be read is among them, and
every label stands under the text of one of them (`Labelled`). The choices of a setting are those of the
first idiom that succeeds. -/
namespace SettingsHarvest
open Syntax

namespace Choices

/-- Choices whose labels all stand under the texts of values. -/
def Labelled (c : Choices) : Prop := ∀ label ∈ c.labels, ∃ v ∈ c.values, v.keyText = .ok label.1

theorem labelled_of_no_labels (values : List Value) : Labelled ⟨values, []⟩ := nofun

/-! ### Options one by one -/

variable {c c' : Choices} {option : Value × Option String}

/-- An option that can be put among others: its value has a text for the label to stand under. -/
def Keyed (option : Value × Option String) : Prop := option.2.isSome → option.1.isWritable = true

theorem keyed_of_writable (h : option.1.isWritable = true) : Keyed option := fun _ => h

theorem add_eq_ok : c.add option = .ok c' ↔ Keyed option ∧ c' = ⟨c.values ++ [option.1],
    match option.2 with
    | some label => assign option.1.plainText label c.labels
    | .none => c.labels⟩ := by
  obtain ⟨v, _ | label⟩ := option
  · exact ⟨fun h => ⟨nofun, (pure_eq_ok.1 h).symm⟩, fun ⟨_, h⟩ => pure_eq_ok.2 h.symm⟩
  · constructor
    · intro h
      obtain ⟨key, hkey, h⟩ := bind_eq_ok.1 h
      obtain ⟨hwritable, rfl⟩ := Value.keyText_eq_ok.1 hkey
      exact ⟨fun _ => hwritable, (pure_eq_ok.1 h).symm⟩
    · rintro ⟨hkeyed, rfl⟩
      simp only [add, Value.keyText_eq_ok.2 ⟨hkeyed rfl, rfl⟩]
      rfl

theorem values_add (h : c.add option = .ok c') : c'.values = c.values ++ [option.1] := by
  rw [(add_eq_ok.1 h).2]

theorem Labelled.add (hc : c.Labelled) (h : c.add option = .ok c') : c'.Labelled := by
  obtain ⟨v, label⟩ := option
  obtain ⟨hkeyed, rfl⟩ := add_eq_ok.1 h
  have hkeep (known : String × String) (hknown : known ∈ c.labels) :
      ∃ w ∈ c.values ++ [v], w.keyText = .ok known.1 := by
    obtain ⟨w, hw, hkey⟩ := hc known hknown
    exact ⟨w, List.mem_append_left _ hw, hkey⟩
  cases label with
  | none => exact hkeep
  | some label =>
    intro known hknown
    rcases mem_of_mem_assign hknown with rfl | hknown
    · exact ⟨v, List.mem_append_right _ (List.mem_singleton_self v),
        Value.keyText_eq_ok.2 ⟨hkeyed rfl, rfl⟩⟩
    · exact hkeep known hknown

/-! ### All options -/

variable {options : List (Outcome (Value × Option String))}

/-- Options collected on top of others. -/
def collectFrom (c : Choices) (options : List (Outcome (Value × Option String))) : Attempt Choices :=
  options.foldlM (fun c o => match o with
    | .ok option => c.add option
    | .error _ => pure c) c

theorem collectFrom_ok (c : Choices) (option : Value × Option String)
    (rest : List (Outcome (Value × Option String))) :
    c.collectFrom (.ok option :: rest) = c.add option >>= fun next => next.collectFrom rest :=
  List.foldlM_cons

theorem collectFrom_error (c : Choices) (f : Failure)
    (rest : List (Outcome (Value × Option String))) :
    c.collectFrom (.error f :: rest) = c.collectFrom rest := rfl

theorem Labelled.collectFrom (hc : c.Labelled) (h : c.collectFrom options = .ok c') : c'.Labelled := by
  apply foldlM_preserves h hc
  rintro (f | option) - d d' hd hlabelled
  · cases pure_eq_ok.1 hd
    exact hlabelled
  · exact hlabelled.add hd

theorem labelled_collect (h : collect options = .ok c) : c.Labelled :=
  (labelled_of_no_labels []).collectFrom h

/-- The values that are collected are those of the options that could be read. -/
theorem values_collectFrom (h : c.collectFrom options = .ok c') :
    c'.values = c.values ++ options.filterMap fun o => (Project.valueOf? o).map Prod.fst := by
  induction options generalizing c with
  | nil =>
    cases pure_eq_ok.1 h
    simp
  | cons o rest ih =>
    cases o with
    | error f => simpa [Project.valueOf?] using ih h
    | ok option =>
      rw [collectFrom_ok] at h
      obtain ⟨next, hnext, h⟩ := bind_eq_ok.1 h
      simp [ih h, values_add hnext, Project.valueOf?]

theorem values_collect (h : collect options = .ok c) :
    c.values = options.filterMap fun o => (Project.valueOf? o).map Prod.fst :=
  values_collectFrom h

/-- A value is among the choices exactly if it is that of an option which could be read. -/
theorem mem_collect (h : collect options = .ok c) {v : Value} :
    v ∈ c.values ↔ ∃ label, .ok (v, label) ∈ options := by
  rw [values_collect h, List.mem_filterMap]
  constructor
  · rintro ⟨_ | ⟨w, label⟩, ho, hv⟩
    · cases hv
    · cases Option.some.inj hv
      exact ⟨label, ho⟩
  · rintro ⟨label, ho⟩
    exact ⟨_, ho, rfl⟩

theorem exists_collectFrom_iff (c : Choices) :
    (∃ c', c.collectFrom options = .ok c') ↔ ∀ option, .ok option ∈ options → Keyed option := by
  induction options generalizing c with
  | nil => exact iff_of_true ⟨c, rfl⟩ nofun
  | cons o rest ih =>
    cases o with
    | error f =>
      rw [collectFrom_error, ih]
      simp
    | ok option =>
      rw [collectFrom_ok]
      constructor
      · rintro ⟨c', h⟩
        obtain ⟨next, hnext, h⟩ := bind_eq_ok.1 h
        intro other hother
        rcases List.mem_cons.1 hother with heq | hother
        · cases heq
          exact (add_eq_ok.1 hnext).1
        · exact (ih next).1 ⟨c', h⟩ other hother
      · intro h
        have hnext := add_eq_ok (c := c).2 ⟨h option List.mem_cons_self, rfl⟩
        obtain ⟨c', hc'⟩ := (ih _).2 fun other hother => h other (List.mem_cons_of_mem _ hother)
        exact ⟨c', bind_eq_ok.2 ⟨_, hnext, hc'⟩⟩

/-- Options can be collected exactly if every value with a label can be written out. -/
theorem exists_collect_iff :
    (∃ c, collect options = .ok c) ↔ ∀ option, .ok option ∈ options → Keyed option :=
  exists_collectFrom_iff none

/-- Options whose values are texts can always be collected. -/
theorem collect_texts {texts : List String}
    (h : (options.filterMap fun o => (Project.valueOf? o).map Prod.fst) = texts.map .text) :
    ∃ c, collect options = .ok c ∧ c.values = texts.map .text := by
  have hkeyed (option : Value × Option String) (hoption : .ok option ∈ options) : Keyed option := by
    have hmem : option.1 ∈ texts.map .text := h ▸ List.mem_filterMap.2 ⟨_, hoption, rfl⟩
    obtain ⟨t, -, ht⟩ := List.mem_map.1 hmem
    exact keyed_of_writable (ht ▸ rfl)
  obtain ⟨c, hc⟩ := exists_collect_iff.2 hkeyed
  exact ⟨c, hc, (values_collect hc).trans h⟩

theorem isEmpty_eq_false {c : Choices} {v : Value} (h : v ∈ c.values) : c.isEmpty = false := by
  cases hv : c.values with
  | nil => simp [hv] at h
  | cons w rest => simp [isEmpty, hv]

end Choices

/-! ### Idioms -/

namespace Project

theorem applies_eq {o : Outcome Choices} {found : Option (Outcome Choices)}
    (h : applies o = .ok found) : found = some o := (Except.ok.inj h).symm

theorem applies_ne_doesNotApply {o : Outcome Choices} : doesNotApply ≠ .ok (some o) := nofun

/-- An idiom that reads anything applies to what it reads. -/
theorem of_applied {applied : Bool} {read : Attempt (Option (Outcome Choices))} {o : Outcome Choices}
    (h : (if !applied then doesNotApply else read) = .ok (some o)) :
    applied = true ∧ read = .ok (some o) := by
  split at h
  · exact absurd h applies_ne_doesNotApply
  · next happlied => exact ⟨by simpa using happlied, h⟩

/-- An idiom whose choices have their labels under texts of values. -/
def LabelsChoices (idiom : Idiom) : Prop :=
  ∀ p s c, idiom p s = .ok (some (.ok c)) → c.Labelled

theorem literalList_labels : LabelsChoices literalList := by
  intro p s c h
  obtain ⟨-, h⟩ := of_applied h
  split at h
  · exact absurd h applies_ne_doesNotApply
  · obtain ⟨outcomes, -, h⟩ := bind_eq_ok.1 h
    dsimp only at h
    split at h
    · cases applies_eq h
    · cases applies_eq h
      exact Choices.labelled_of_no_labels _

theorem objectList_labels : LabelsChoices objectList := by
  intro p s c h
  obtain ⟨-, h⟩ := of_applied h
  obtain ⟨options, -, h⟩ := bind_eq_ok.1 h
  obtain ⟨choices, hchoices, h⟩ := bind_eq_ok.1 h
  split at h
  · cases applies_eq h
  · cases applies_eq h
    exact Choices.labelled_collect hchoices

theorem mappedList_labels : LabelsChoices mappedList := by
  intro p s c h
  obtain ⟨-, h⟩ := of_applied h
  obtain ⟨elements, -, h⟩ := bind_eq_ok.1 h
  obtain ⟨callback, -, h⟩ := bind_eq_ok.1 h
  split at h
  · split at h
    · cases applies_eq h
    · cases applies_eq h
    · obtain ⟨options, -, h⟩ := bind_eq_ok.1 h
      obtain ⟨choices, hchoices, h⟩ := bind_eq_ok.1 h
      split at h
      · cases applies_eq h
      · cases applies_eq h
        exact Choices.labelled_collect hchoices
  · exact absurd h applies_ne_doesNotApply

theorem copiedList_labels : LabelsChoices copiedList := by
  intro p s c h
  obtain ⟨-, h⟩ := of_applied h
  split at h
  · cases applies_eq h
  · obtain ⟨list, -, h⟩ := bind_eq_ok.1 h
    cases list with
    | none => cases applies_eq h
    | some list =>
      obtain ⟨found, hfound, h⟩ := bind_eq_ok.1 h
      cases found with
      | none => cases applies_eq h
      | some o =>
        cases applies_eq h
        exact literalList_labels p list c hfound

theorem tableList_labels : LabelsChoices tableList := by
  intro p s c h
  obtain ⟨-, h⟩ := of_applied h
  obtain ⟨e, -, h⟩ := bind_eq_ok.1 h
  cases e with
  | none => exact absurd h applies_ne_doesNotApply
  | some e =>
    obtain ⟨table, -, h⟩ := bind_eq_ok.1 h
    cases table with
    | none => cases applies_eq h
    | some table =>
      obtain ⟨texts, -, h⟩ := bind_eq_ok.1 h
      have hfound : ∃ texts : List String, (if texts.isEmpty then applies (.error .emptyTable)
          else applies (.ok ⟨texts.map .text, []⟩)) = .ok (some (.ok c)) := by
        split at h
        · obtain ⟨keys, -, h⟩ := bind_eq_ok.1 h
          exact ⟨keys, h⟩
        · obtain ⟨same, -, h⟩ := bind_eq_ok.1 h
          exact ⟨same, h⟩
      obtain ⟨texts, h⟩ := hfound
      split at h
      · cases applies_eq h
      · cases applies_eq h
        exact Choices.labelled_of_no_labels _

theorem idioms_label : ∀ idiom ∈ idioms, LabelsChoices idiom := by
  simp only [idioms, List.forall_mem_cons]
  exact ⟨literalList_labels, objectList_labels, mappedList_labels, copiedList_labels,
    tableList_labels, nofun⟩

/-! ### The first success -/

theorem firstChoices_skip {p : Project} {s : Site} {last : Failure} {idiom : Idiom} {rest : List Idiom}
    (h : idiom p s = doesNotApply) :
    p.firstChoices s last (idiom :: rest) = p.firstChoices s last rest := by
  rw [firstChoices, h]
  rfl

/-- A call is no list, and no list of objects. -/
theorem lists_skip {p : Project} {s : Site} (h : s.hasKind .callExpression = true) :
    literalList p s = doesNotApply ∧ objectList p s = doesNotApply := by
  have hnoArray : s.hasKind .array = false := Site.hasKind_ne h (by decide)
  constructor
  · simp only [literalList, hnoArray]
    rfl
  · simp only [objectList, hnoArray]
    rfl

theorem firstChoices_labelled {p : Project} {s : Site} {last : Failure} {tried : List Idiom}
    (hall : ∀ idiom ∈ tried, LabelsChoices idiom) {c : Choices}
    (h : p.firstChoices s last tried = .ok (.ok c)) : c.Labelled := by
  induction tried generalizing last with
  | nil => cases h
  | cons idiom rest ih =>
    have hrest : ∀ idiom ∈ rest, LabelsChoices idiom :=
      fun other hother => hall other (List.mem_cons_of_mem _ hother)
    obtain ⟨found, hfound, h⟩ := bind_eq_ok.1 h
    match found with
    | none => exact ih hrest h
    | some (.error f) => exact ih hrest h
    | some (.ok c') =>
      cases pure_eq_ok.1 h
      exact hall idiom List.mem_cons_self p s c hfound

theorem choicesOf_labelled {p : Project} {setting : Site} {c : Choices}
    (h : p.choicesOf setting = .ok c) : c.Labelled := by
  obtain ⟨options, -, h⟩ := bind_eq_ok.1 h
  cases options with
  | none =>
    cases pure_eq_ok.1 h
    exact Choices.labelled_of_no_labels []
  | some options =>
    obtain ⟨outcome, houtcome, h⟩ := bind_eq_ok.1 h
    cases outcome with
    | error f =>
      cases pure_eq_ok.1 h
      exact Choices.labelled_of_no_labels []
    | ok c' =>
      cases pure_eq_ok.1 h
      obtain ⟨e, -, houtcome⟩ := bind_eq_ok.1 houtcome
      exact firstChoices_labelled idioms_label houtcome

end Project
end SettingsHarvest
