import SettingsHarvest.Proofs.Choices
import SettingsHarvest.Proofs.Evidence
import SettingsHarvest.Proofs.Leaves
import SettingsHarvest.Proofs.ScalarValues

/-! Settings that are well formed.

Type, default, choices and labels of a setting come from different places, and writers of modules rely
on them fitting together: only enumerations have choices, only numbers can be without a default, and a
default is of the type that the setting got in the end. `leaf_wellFormed` says so of every setting in
a tree. -/
namespace SettingsHarvest
open Syntax

/-! ### Folded calls -/

/-- What the fields of a folded call can be. -/
def IsFieldValue (v : Value) : Prop := v.isScalar = true ∨ v = .list [] ∨ v = .record []

namespace Project

theorem isScalar_fieldsOf {p : Project} (hp : ScalarTable p.enums) {pairs : List Site} {fields : Fields}
    (h : p.fieldsOf pairs = .ok fields) : ∀ field ∈ fields.values, field.2.isScalar = true := by
  refine foldlM_preserves (P := fun fields : Fields => ∀ field ∈ fields.values, field.2.isScalar = true)
    h nofun ?_
  intro pair _ fields fields' hstep hfields
  obtain ⟨key, -, hstep⟩ := bind_eq_ok.1 hstep
  split at hstep
  · obtain ⟨outcome, houtcome, hstep⟩ := bind_eq_ok.1 hstep
    cases outcome with
    | error f =>
      cases pure_eq_ok.1 hstep
      exact hfields
    | ok v =>
      cases pure_eq_ok.1 hstep
      exact forall_mem_assign (isScalar_evaluate hp scalarBindings_nil houtcome) hfields
  · cases pure_eq_ok.1 hstep
    exact hfields

theorem isFieldValue_emptyCollection {s : Site} {v : Value} (h : emptyCollection? s = some v) :
    IsFieldValue v := by
  unfold emptyCollection? at h
  split at h
  · cases h
    exact Or.inr (Or.inl rfl)
  · split at h
    · cases h
      exact Or.inr (Or.inr rfl)
    · cases h

/-- A folded call is the empty list, or a record of values and empty collections. -/
theorem foldCall_cases {p : Project} (hp : ScalarTable p.enums) {call : Site} {v : Value}
    (h : p.foldCall call = .ok v) :
    v = .list [] ∨ ∃ fields, v = .record fields ∧ ∀ field ∈ fields, IsFieldValue field.2 := by
  unfold foldCall at h
  split at h
  · obtain ⟨shape, -, h⟩ := bind_eq_ok.1 h
    rw [pure_eq_ok] at h
    split at h
    · exact Or.inl h.symm
    · exact Or.inr ⟨[], h.symm, nofun⟩
  · obtain ⟨fields, hfields, h⟩ := bind_eq_ok.1 h
    cases pure_eq_ok.1 h
    refine Or.inr ⟨_, rfl, ?_⟩
    have hvalues : ∀ field ∈ fields.values, IsFieldValue field.2 :=
      fun field hfield => Or.inl (isScalar_fieldsOf hp hfields field hfield)
    generalize fields.values = values at hvalues
    induction fields.failures generalizing values with
    | nil => exact hvalues
    | cons failure rest ih =>
      obtain ⟨key, v, f⟩ := failure
      rw [List.foldl_cons]
      apply ih
      dsimp only
      cases hc : emptyCollection? v with
      | none => exact hvalues
      | some c => exact forall_mem_assign (isFieldValue_emptyCollection hc) hvalues

end Project

/-! ### Types and defaults -/

/-- A default that fits a type, given the literal it is written as, if it is one. -/
structure DefaultFits (literal : Option Value) (t : TargetType) (default : Option Value) : Prop where
  unset : default = none → t = .int ∨ t = .float ∨ t = .enum
  nullable : t = .nullableStr → default = some .null
  lists : t.isList = true → default = some (.list [])
  attributes : t = .attrs →
    ∃ fields, default = some (.record fields) ∧ ∀ field ∈ fields, IsFieldValue field.2
  switch : t = .bool → literal = none → ∃ b, default = some (.truth b)
  text : t = .str → literal.isSome = true ∧ default = literal

namespace DefaultFits

theorem ofLiteral {t : TargetType} (ht : t.isScalar = true) (v : Value) :
    DefaultFits (some v) t (some v) := by
  refine ⟨nofun, ?_, ?_, ?_, nofun, fun _ => ⟨rfl, rfl⟩⟩
  · rintro rfl
    cases ht
  · have hlist : t.isList = false := by
      revert ht
      cases t <;> decide
    exact fun htrue => absurd (hlist.symm.trans htrue) Bool.false_ne_true
  · rintro rfl
    cases ht

theorem ofNumber {t : TargetType} (ht : t = .int ∨ t = .float ∨ t = .enum) (literal default : Option Value) :
    DefaultFits literal t default := by
  refine ⟨fun _ => ht, ?_, ?_, ?_, ?_, ?_⟩ <;> rcases ht with rfl | rfl | rfl <;> nofun

theorem ofTruth (literal : Option Value) (b : Bool) :
    DefaultFits literal .bool (some (.truth b)) :=
  ⟨nofun, nofun, nofun, nofun, fun _ _ => ⟨b, rfl⟩, nofun⟩

theorem ofNull (literal : Option Value) : DefaultFits literal .nullableStr (some .null) :=
  ⟨nofun, fun _ => rfl, nofun, nofun, nofun, nofun⟩

theorem ofEmptyList {t : TargetType} (ht : t.isList = true) (literal : Option Value) :
    DefaultFits literal t (some (.list [])) := by
  refine ⟨nofun, ?_, fun _ => rfl, ?_, ?_, ?_⟩ <;> rintro rfl <;> cases ht

theorem ofRecord (literal : Option Value) {fields : List (String × Value)}
    (h : ∀ field ∈ fields, IsFieldValue field.2) :
    DefaultFits literal .attrs (some (.record fields)) :=
  ⟨nofun, nofun, nofun, fun _ => ⟨fields, rfl, h⟩, nofun, nofun⟩

end DefaultFits

namespace Project

theorem defaultFits_promoteText (literal : Option Value) (e : Evidence) (t : Option OptionType) :
    DefaultFits literal (promoteText e t).1 (promoteText e t).2 := by
  unfold promoteText
  split
  · split
    · exact .ofEmptyList rfl literal
    · exact .ofRecord literal nofun
  · exact .ofNull literal

theorem defaultFits_attrsDefault {p : Project} (hp : ScalarTable p.enums) (literal : Option Value)
    {e : Evidence} {t : TargetType} {default : Option Value}
    (h : p.attrsDefault e = .ok (t, default)) : DefaultFits literal t default := by
  unfold attrsDefault at h
  split at h
  · cases h
    exact .ofNull literal
  · split at h
    · obtain ⟨v, hv, h⟩ := bind_eq_ok.1 h
      rcases foldCall_cases hp hv with rfl | ⟨fields, rfl, hfields⟩
      · cases pure_eq_ok.1 h
        exact .ofEmptyList rfl literal
      · cases pure_eq_ok.1 h
        exact .ofRecord literal hfields
    · split at h
      · cases h
        exact .ofEmptyList rfl literal
      · cases h
        exact .ofRecord literal nofun

/-- A setting gets a default that fits its type, if constants are classified as something scalar. -/
theorem defaultFits_resolveDefault {p : Project} (hp : ScalarTable p.enums) {setting : Site}
    {target : TargetType} {e : Evidence} {choices : Choices} {t : Option OptionType}
    (htarget : ∀ v, e.literal = some v → target.isScalar = true) {t' : TargetType}
    {default : Option Value} (h : p.resolveDefault setting target e choices t = .ok (t', default)) :
    DefaultFits e.literal t' default := by
  unfold resolveDefault at h
  cases hliteral : e.literal with
  | some v =>
    rw [hliteral] at h
    cases h
    exact .ofLiteral (htarget v hliteral) v
  | none =>
    rw [hliteral] at h
    dsimp only at h
    split at h
    · cases h
      exact .ofEmptyList rfl none
    · cases target with
      | listOfStr | listOfAttrs =>
        cases h
        exact .ofEmptyList rfl none
      | bool =>
        obtain ⟨marker, -, h⟩ := bind_eq_ok.1 h
        split at h
        · cases pure_eq_ok.1 h
          exact .ofTruth none _
        · cases pure_eq_ok.1 h
          exact .ofTruth none false
      | enum =>
        obtain ⟨marker, -, h⟩ := bind_eq_ok.1 h
        cases pure_eq_ok.1 h
        exact .ofNumber (Or.inr (Or.inr rfl)) none _
      | str =>
        have hp := defaultFits_promoteText none e t
        rw [Except.ok.inj h] at hp
        exact hp
      | nullableStr =>
        cases h
        exact .ofNull none
      | attrs => exact defaultFits_attrsDefault hp none h
      | int =>
        cases h
        exact .ofNumber (Or.inl rfl) none none
      | float =>
        cases h
        exact .ofNumber (Or.inr (Or.inl rfl)) none none

end Project

/-! ### Settings -/

/-- A setting all of whose parts fit together, given the literal its default is written as, if it is
one. -/
structure WellFormed (literal : Option Value) (s : Setting) : Prop where
  choices : s.target = .enum → ∃ values, s.choices = some values ∧ values ≠ []
  noChoices : s.target ≠ .enum → s.choices = none
  labels : ∀ labels, s.labels = some labels → s.target = .enum ∧ labels ≠ [] ∧
    ∀ label ∈ labels, ∃ values, s.choices = some values ∧ ∃ v ∈ values, v.keyText = .ok label.1
  unset : s.default = none → s.target = .int ∨ s.target = .float
  default : DefaultFits literal s.target s.default

theorem Project.Reads.wellFormed {p : Project} (hp : ScalarTable p.enums) {object : Site} {s : Setting}
    {i : Inspection} (h : p.Reads object s i) : WellFormed i.evidence.literal s := by
  obtain ⟨-, hchoices, hevidence⟩ := inspect_parts h.inspected
  have hfits : DefaultFits i.evidence.literal s.target s.default :=
    defaultFits_resolveDefault hp
      (fun v hv => classify_constant (o := i.observation) (inspectDefault_constant hevidence hv).1)
      h.resolved
  constructor
  · intro ht
    refine ⟨i.choices.values, by rw [h.choices, if_pos ht], ?_⟩
    simpa [Choices.isEmpty] using (h.chosen ht).1
  · intro ht
    rw [h.choices, if_neg ht]
  · intro labels hlabels
    rw [h.labels] at hlabels
    split at hlabels
    · next hcond =>
      cases hlabels
      refine ⟨hcond.1, by simpa using hcond.2, fun label hlabel => ?_⟩
      obtain ⟨v, hv, hkey⟩ := choicesOf_labelled hchoices label hlabel
      exact ⟨i.choices.values, by rw [h.choices, if_pos hcond.1], v, hv, hkey⟩
    · cases hlabels
  · intro hnone
    rcases hfits.unset hnone with ht | ht | ht
    · exact Or.inl ht
    · exact Or.inr ht
    · have hsome := (h.chosen ht).2
      rw [hnone] at hsome
      cases hsome
  · exact hfits

/-- **Settings are well formed.** Every setting in a tree is, by what the object literal at the end of
its path has for a default: nothing else is taken for a literal than a member with a value. -/
theorem leaf_wellFormed {p : Project} (hp : ScalarTable p.enums) {retainHidden : Bool} {object : Site}
    {entries : Entries} {path : List String} {s : Setting}
    (h : p.extract object retainHidden = .ok entries) (hleaf : Leaf entries path s) :
    ∃ o e, Declares object path o ∧ p.inspectDefault o = .ok e ∧
      (∀ v, e.literal = some v → p.DefaultsTo o v) ∧ WellFormed e.literal s := by
  obtain ⟨o, i, hdeclares, hreads⟩ := Project.leaf_declared h hleaf
  obtain ⟨-, -, hevidence⟩ := Project.inspect_parts hreads.inspected
  exact ⟨o, i.evidence, hdeclares, hevidence,
    fun v hv => (Project.inspectDefault_constant hevidence hv).2, hreads.wellFormed hp⟩

/-- A switch that is on, inside a group. -/
def nestedSwitch : Site :=
  siteOf (objectLiteral [pairLiteral "group" (objectLiteral
    [pairLiteral "fast" (objectLiteral [pairLiteral "default" trueLiteral])])])

theorem nested_switch_wellFormed :
    ScalarTable bareProject.enums ∧
      ∃ entries s, bareProject.extract nestedSwitch false = .ok entries ∧
        Leaf entries ["group", "fast"] s ∧ s.target = .bool ∧
        ∃ o e, Declares nestedSwitch ["group", "fast"] o ∧ bareProject.inspectDefault o = .ok e ∧
          (∀ v, e.literal = some v → bareProject.DefaultsTo o v) ∧ WellFormed e.literal s := by
  obtain ⟨entries, s, h, hleaf, ht⟩ : ∃ entries s,
      bareProject.extract nestedSwitch false = .ok entries ∧ Leaf entries ["group", "fast"] s ∧
        s.target = .bool :=
    ⟨_, _, rfl, .group (List.mem_singleton_self _) (.setting (List.mem_singleton_self _)), rfl⟩
  exact ⟨scalarTable_platformEnums, entries, s, h, hleaf, ht,
    leaf_wellFormed scalarTable_platformEnums h hleaf⟩

end SettingsHarvest
