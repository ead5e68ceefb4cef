import SettingsHarvest.Preferences
import SettingsHarvest.Proofs.Attempt

/-! Preferences that are let pass.

`check` goes through the preferences value by value. `Checked` says the same at once, for each kind of value
that is looked at, and `check_eq_ok_iff` that there is no difference. The directories, what is in the aliases
and the renames, and the fields of lookup tables are not among them. -/
namespace SettingsHarvest
namespace Preferences

def lookupTables (s : Preferences) : List Datum :=
  match s.get "lookup_tables" with
  | .list tables => tables
  | _ => []

/-- The entries of a mapping among preferences. -/
def entriesOf (s : Preferences) (key : String) : Preferences := (s.get key).entries?.getD []

/-- What is known of preferences that are let pass. -/
structure Checked (s : Preferences) : Prop where
  positive : ∀ key ∈ ["concurrency", "progress_interval"], ∃ n, 1 ≤ n ∧ s.get key = .integer n
  mappings : ∀ key ∈ ["path_aliases", "plugin_renames", "external_enums"],
    ∃ entries, s.get key = .mapping entries
  members : ∀ e ∈ s.entriesOf "external_enums", ∃ members, e.2 = .mapping members ∧
    ∀ m ∈ members, (∃ name, m.1 = .text name) ∧ ((∃ n, m.2 = .integer n) ∨ ∃ t, m.2 = .text t)
  lists : ∃ tables, s.get "lookup_tables" = .list tables
  tables : ∀ t ∈ s.lookupTables, ∃ entries, t = .mapping entries ∧
    ∀ key ∈ lookupKeys, ∃ d, Datum.lookup? (.text key) entries = some d

theorem entries?_eq_some {d : Datum} {entries : Preferences} :
    d.entries? = some entries ↔ d = .mapping entries := by
  cases d with
  | mapping other => simp [Datum.entries?]
  | null | truth | integer | decimal | text | list | other => simp [Datum.entries?]

theorem text?_eq_some {d : Datum} {t : String} : d.text? = some t ↔ d = .text t := by
  cases d with
  | text other => simp [Datum.text?]
  | null | truth | integer | decimal | mapping | list | other => simp [Datum.text?]

theorem refuseShowing_eq_error {α : Type} (shown : List Datum) (message : String) :
    ∃ f, (refuseShowing shown message : Attempt α) = .error f := by
  rw [refuseShowing]
  split
  · exact ⟨_, rfl⟩
  · exact ⟨_, rfl⟩

/-- Nothing is let pass with a message. -/
theorem not_refuseShowing_eq_ok {shown : List Datum} {message : String} :
    refuseShowing shown message ≠ .ok () := by
  intro h
  obtain ⟨f, hf⟩ := refuseShowing_eq_error (α := Unit) shown message
  rw [hf] at h
  cases h

theorem checkPositive_eq_ok {s : Preferences} {key : String} :
    checkPositive s key = .ok () ↔ ∃ n, 1 ≤ n ∧ s.get key = .integer n := by
  rw [checkPositive]
  cases s.get key with
  | integer n => simp [isPositive, not_refuseShowing_eq_ok]
  | null | truth | decimal | text | list | mapping | other => simp [isPositive, not_refuseShowing_eq_ok]

theorem checkMapping_eq_ok {s : Preferences} {key : String} :
    checkMapping s key = .ok () ↔ ∃ entries, s.get key = .mapping entries := by
  rw [checkMapping]
  cases s.get key with
  | mapping entries => simp [Datum.entries?]
  | null | truth | integer | decimal | text | list | other => simp [Datum.entries?, refuse]

theorem checkMember_eq_ok {enumeration : Datum} {m : Datum × Datum} :
    checkMember enumeration m = .ok () ↔
      (∃ name, m.1 = .text name) ∧ ((∃ n, m.2 = .integer n) ∨ ∃ t, m.2 = .text t) := by
  have hname : m.1.text?.isSome = true ↔ ∃ name, m.1 = .text name := by
    simp only [Option.isSome_iff_exists, text?_eq_some]
  have hvalue : isMemberValue m.2 = true ↔ (∃ n, m.2 = .integer n) ∨ ∃ t, m.2 = .text t := by
    cases m.2 with
    | integer | text => simp [isMemberValue]
    | null | truth | decimal | list | mapping | other => simp [isMemberValue]
  rw [checkMember, ← hname, ← hvalue, ← Bool.and_eq_true]
  split
  · next hboth => exact iff_of_true rfl hboth
  · next hboth => exact iff_of_false not_refuseShowing_eq_ok hboth

theorem checkEnumeration_eq_ok {e : Datum × Datum} :
    checkEnumeration e = .ok () ↔ ∃ members, e.2 = .mapping members ∧
      ∀ m ∈ members, (∃ name, m.1 = .text name) ∧ ((∃ n, m.2 = .integer n) ∨ ∃ t, m.2 = .text t) := by
  rw [checkEnumeration]
  split
  · next members hmembers =>
    rw [forM_eq_ok_iff, entries?_eq_some.1 hmembers]
    simp only [checkMember_eq_ok, Datum.mapping.injEq, exists_eq_left']
  · next hnone =>
    refine iff_of_false not_refuseShowing_eq_ok ?_
    rintro ⟨members, hmembers, -⟩
    rw [hmembers] at hnone
    cases hnone

theorem checkLookup_eq_ok {table : Datum} :
    checkLookup table = .ok () ↔ ∃ entries, table = .mapping entries ∧
      ∀ key ∈ lookupKeys, ∃ d, Datum.lookup? (.text key) entries = some d := by
  rw [checkLookup]
  split
  · next hnone =>
    refine iff_of_false not_refuseShowing_eq_ok ?_
    rintro ⟨entries, hentries, -⟩
    rw [hentries] at hnone
    cases hnone
  · next entries hentries =>
    rw [entries?_eq_some.1 hentries]
    simp only [Datum.mapping.injEq, exists_eq_left', ← Option.isSome_iff_exists]
    split
    · next hall =>
      refine iff_of_true rfl fun key hkey => ?_
      rw [← Option.not_isNone]
      simpa only [Bool.not_eq_true, Bool.not_eq_true'] using List.filter_eq_nil_iff.1 hall key hkey
    · next hmissing =>
      refine iff_of_false nofun fun hall => hmissing (List.filter_eq_nil_iff.2 fun key hkey => ?_)
      rw [Bool.not_eq_true, ← Option.not_isSome, hall key hkey]
      rfl

/-- Exactly these preferences are let pass. -/
theorem check_eq_ok_iff {s : Preferences} : s.check = .ok () ↔ s.Checked := by
  have hlookups : checkLookups (s.get "lookup_tables") = .ok () ↔
      (∃ tables, s.get "lookup_tables" = .list tables) ∧ ∀ t ∈ s.lookupTables, ∃ entries,
        t = .mapping entries ∧ ∀ key ∈ lookupKeys, ∃ d, Datum.lookup? (.text key) entries = some d := by
    rw [lookupTables]
    cases s.get "lookup_tables" with
    | list tables =>
      rw [checkLookups, forM_eq_ok_iff]
      simp only [checkLookup_eq_ok, Datum.list.injEq, exists_eq', true_and]
    | null | truth | integer | decimal | text | mapping | other => simp [checkLookups, refuse]
  have hsteps : s.check = .ok () ↔
      (∀ key ∈ ["concurrency", "progress_interval"], checkPositive s key = .ok ()) ∧
      (∀ key ∈ ["path_aliases", "plugin_renames", "external_enums"], checkMapping s key = .ok ()) ∧
      (∀ e ∈ s.entriesOf "external_enums", checkEnumeration e = .ok ()) ∧
      checkLookups (s.get "lookup_tables") = .ok () := by
    simp only [← forM_eq_ok_iff]
    constructor
    · intro h
      obtain ⟨⟨⟩, hpositive, h⟩ := bind_eq_ok.1 h
      obtain ⟨⟨⟩, hmappings, h⟩ := bind_eq_ok.1 h
      obtain ⟨⟨⟩, hmembers, h⟩ := bind_eq_ok.1 h
      exact ⟨hpositive, hmappings, hmembers, h⟩
    · rintro ⟨hpositive, hmappings, hmembers, hlookups⟩
      exact bind_eq_ok.2 ⟨(), hpositive, bind_eq_ok.2 ⟨(), hmappings,
        bind_eq_ok.2 ⟨(), hmembers, hlookups⟩⟩⟩
  simp only [hsteps, checkPositive_eq_ok, checkMapping_eq_ok, checkEnumeration_eq_ok, hlookups]
  constructor
  · rintro ⟨hpositive, hmappings, hmembers, hlists, htables⟩
    exact ⟨hpositive, hmappings, hmembers, hlists, htables⟩
  · rintro ⟨hpositive, hmappings, hmembers, hlists, htables⟩
    exact ⟨hpositive, hmappings, hmembers, hlists, htables⟩

end Preferences
end SettingsHarvest
