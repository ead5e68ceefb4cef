import SettingsHarvest.Proofs.EnumDefaults

/-! Settings that are left out.

Reading a setting can fail in three ways: nothing tells its type, or it is an enumeration without
choices, or one without a default. Only the first ever happens. A setting becomes an enumeration by
having choices, and the first choice stands in where no default is marked (`resolveDefault_chosen`), so
`extractSetting` fails exactly on a setting that is `Untold`, with the failure its sort met.

A literal is gone through member by member. `entryOf?` is what one member comes to, and the entries
are those of all members, assigned one after another (`entriesOf_eq`); the members left out are the
untold ones, besides those that are no settings at all (`untold_settings_omitted`). -/
namespace SettingsHarvest
open Syntax

/-! ### Enumerations -/

/-- Only choices make an enumeration. -/
theorem choices_of_classify_enum {o : Observation} (h : classify o = .enum) :
    o.choices.isEmpty = false := by
  refine classify_of_rules (P := fun t => t = .enum → o.choices.isEmpty = false) nofun ?_ h
  simp [rules]

namespace Project

/-- A setting that ends up as an enumeration was classified as one, and its choices give it a default. -/
theorem resolveDefault_chosen {p : Project} {setting : Site} {target : TargetType} {e : Evidence}
    {choices : Choices} {t : Option OptionType} {default : Option Value}
    (h : p.resolveDefault setting target e choices t = .ok (.enum, default)) :
    target = .enum ∧ (choices.isEmpty = false → default.isSome = true) := by
  unfold resolveDefault at h
  cases hliteral : e.literal with
  | some v =>
    rw [hliteral] at h
    cases h
    exact ⟨rfl, fun _ => rfl⟩
  | none =>
    rw [hliteral] at h
    dsimp only at h
    split at h
    · cases h
    · cases target with
      | enum =>
        obtain ⟨marker, -, h⟩ := bind_eq_ok.1 h
        cases pure_eq_ok.1 h
        refine ⟨rfl, fun hchoices => ?_⟩
        cases hvalues : choices.values with
        | nil => simp [Choices.isEmpty, hvalues] at hchoices
        | cons first rest => cases marker <;> rfl
      | bool =>
        obtain ⟨marker, -, h⟩ := bind_eq_ok.1 h
        split at h <;> cases pure_eq_ok.1 h
      | str => exact absurd (congrArg Prod.fst (Except.ok.inj h)) (promoteText_ne_enum e t)
      | attrs => exact absurd h attrsDefault_ne_enum
      | listOfStr | listOfAttrs | nullableStr | int | float => cases h

/-! ### One setting -/

/-- A setting whose type nothing tells: its sort is a failure, and it has neither a default nor
choices. -/
def Untold (p : Project) (object : Site) (f : Failure) : Prop :=
  ∃ i, p.inspect object = .ok i ∧ i.optionType = .error f ∧ i.evidence.shape = .absent ∧
    i.choices.isEmpty = true

/-- An inspected setting becomes a setting unless it is untold. -/
theorem exists_setting_of_inspect {p : Project} {name : String} {object : Site} {i : Inspection}
    {outcome : Outcome Setting} (hi : p.inspect object = .ok i)
    (h : p.extractSetting name object = .ok outcome) :
    (∃ s, outcome = .ok s) ∨ ∃ f, outcome = .error f ∧ i.optionType = .error f ∧
      i.evidence.shape = .absent ∧ i.choices.isEmpty = true := by
  obtain ⟨i', hi', h⟩ := bind_eq_ok.1 h
  cases hi.symm.trans hi'
  split at h
  · next f htype habsent =>
    cases pure_eq_ok.1 h
    rw [Bool.and_eq_true, beq_iff_eq] at habsent
    exact Or.inr ⟨f, rfl, htype, habsent⟩
  · left
    obtain ⟨⟨target, default⟩, hresolved, h⟩ := bind_eq_ok.1 h
    have henum (ht : target = .enum) : i.choices.isEmpty = false ∧ default.isSome = true := by
      subst ht
      obtain ⟨htarget, hdefault⟩ := resolveDefault_chosen hresolved
      have hchoices : i.choices.isEmpty = false := choices_of_classify_enum htarget
      exact ⟨hchoices, hdefault hchoices⟩
    dsimp only at h
    split at h
    · next hnone =>
      rw [Bool.and_eq_true, beq_iff_eq] at hnone
      rw [(henum hnone.1).1] at hnone
      cases hnone.2
    · split at h
      · next hnone =>
        rw [Bool.and_eq_true, beq_iff_eq] at hnone
        rw [Option.isNone_eq_false_iff.2 (henum hnone.1).2] at hnone
        cases hnone.2
      · obtain ⟨description, -, h⟩ := bind_eq_ok.1 h
        obtain ⟨example?, -, h⟩ := bind_eq_ok.1 h
        obtain ⟨hidden, -, h⟩ := bind_eq_ok.1 h
        obtain ⟨restartNeeded, -, h⟩ := bind_eq_ok.1 h
        exact ⟨_, (pure_eq_ok.1 h).symm⟩

theorem extractSetting_error_iff {p : Project} (name : String) {object : Site} {f : Failure} :
    p.extractSetting name object = .ok (.error f) ↔ p.Untold object f := by
  constructor
  · intro h
    obtain ⟨i, hi, -⟩ := bind_eq_ok.1 h
    rcases exists_setting_of_inspect hi h with ⟨s, hs⟩ | ⟨f', hf, huntold⟩
    · cases hs
    · cases hf
      exact ⟨i, hi, huntold⟩
  · rintro ⟨i, hi, htype, hshape, hchoices⟩
    refine bind_eq_ok.2 ⟨i, hi, ?_⟩
    rw [htype, hshape, hchoices]
    rfl

/-! ### One member -/

/-- What one member comes to: a setting or a group under its key, or nothing. -/
def entryOf? (p : Project) (retainHidden : Bool) (group : Site → Attempt Entries) (pair : Site) :
    Attempt (Option (String × Entry)) := do
  match ← pair.memberKey?, pair.pairValue?.map Site.unwrap with
  | some key, some object =>
    if !object.hasKind .object then return none
    if ← leavesOut retainHidden object then return none
    if ← object.isGroup then return some (key, .group key (← group object))
    match ← p.extractSetting key object with
    | .ok s => return some (key, .setting s)
    | .error _ => return none
  | _, _ => return none

/-- A member that is read as a setting of its own: an object literal that is kept, and no group. -/
structure LeafMember (retainHidden : Bool) (pair : Site) (key : String) (object : Site) : Prop where
  key : pair.memberKey? = .ok (some key)
  value : pair.pairValue?.map Site.unwrap = some object
  isObject : object.hasKind .object = true
  kept : leavesOut retainHidden object = .ok false
  noGroup : object.isGroup = .ok false

theorem LeafMember.memberEntry_eq_none_iff {p : Project} {retainHidden : Bool}
    {group : Site → Attempt Entries} {pair object : Site} {key : String}
    (h : LeafMember retainHidden pair key object) :
    p.entryOf? retainHidden group pair = .ok none ↔ ∃ f, p.Untold object f := by
  have hmember : p.entryOf? retainHidden group pair = do
      match ← p.extractSetting key object with
      | .ok s => return some (key, .setting s)
      | .error _ => return none := by
    rw [entryOf?, h.key, h.value]
    dsimp only [bind, Except.bind]
    rw [h.isObject, h.kept, h.noGroup]
    rfl
  simp only [← extractSetting_error_iff key]
  rw [hmember, bind_eq_ok]
  constructor
  · rintro ⟨outcome, houtcome, hnone⟩
    cases outcome with
    | ok s => cases pure_eq_ok.1 hnone
    | error f => exact ⟨f, houtcome⟩
  · rintro ⟨f, hf⟩
    exact ⟨.error f, hf, rfl⟩

end Project

/-! ### All members -/

/-- Assigning what was found item by item is assigning all of it in the end. -/
theorem foldlM_assign {ι α : Type} {step : List (String × α) → ι → Attempt (List (String × α))}
    {found : ι → Attempt (Option (String × α))}
    (hstep : ∀ fields i, step fields i = (found i).map fun new => assignAll fields new.toList)
    (items : List ι) (fields : List (String × α)) :
    items.foldlM step fields =
      (items.mapM found).map fun new => assignAll fields (new.filterMap id) := by
  induction items generalizing fields with
  | nil => rfl
  | cons i rest ih =>
    rw [List.foldlM_cons, List.mapM_cons, hstep]
    cases found i with
    | error f => rfl
    | ok new =>
      have hrest := ih (assignAll fields new.toList)
      cases hfound : rest.mapM found with
      | error f =>
        rw [hfound] at hrest
        exact hrest
      | ok others =>
        rw [hfound] at hrest
        cases new <;> exact hrest

theorem Project.entriesOf_eq {p : Project} {retainHidden : Bool} {group : Site → Attempt Entries}
    {pairs : List Site} :
    p.entriesOf retainHidden group pairs =
      (pairs.mapM (p.entryOf? retainHidden group)).map fun found =>
        assignAll [] (found.filterMap id) := by
  refine foldlM_assign (fun entries pair => ?_) pairs []
  unfold entryOf?
  cases pair.memberKey? with
  | error f => rfl
  | ok key =>
    cases key with
    | none => rfl
    | some key =>
      cases pair.pairValue?.map Site.unwrap with
      | none => rfl
      | some object =>
        dsimp only [bind, Except.bind]
        cases object.hasKind .object with
        | false => rfl
        | true =>
          cases leavesOut retainHidden object with
          | error f => rfl
          | ok hidden =>
            cases hidden with
            | true => rfl
            | false =>
              cases object.isGroup with
              | error f => rfl
              | ok isGroup =>
                cases isGroup with
                | true => cases group object <;> rfl
                | false =>
                  cases p.extractSetting key object with
                  | error f => rfl
                  | ok outcome => cases outcome <;> rfl

/-- **Omitted settings.** Reading a setting fails exactly if it is untold, with what its sort failed
with. The entries of a literal are those of its members, one after another; and a member that is read
as a setting of its own adds nothing exactly if it is untold. -/
theorem untold_settings_omitted {p : Project} :
    (∀ name object f, p.extractSetting name object = .ok (.error f) ↔ p.Untold object f) ∧
    ∀ (retainHidden : Bool) (group : Site → Attempt Entries),
      (∀ pairs, p.entriesOf retainHidden group pairs =
        (pairs.mapM (p.entryOf? retainHidden group)).map fun found =>
          assignAll [] (found.filterMap id)) ∧
      ∀ pair key object, Project.LeafMember retainHidden pair key object →
        (p.entryOf? retainHidden group pair = .ok none ↔ ∃ f, p.Untold object f) :=
  ⟨fun name _ _ => Project.extractSetting_error_iff name,
    fun _ _ => ⟨fun _ => Project.entriesOf_eq, fun _ _ _ h => h.memberEntry_eq_none_iff⟩⟩

/-- A setting of a sort there is not, with nothing else to go by. -/
def untoldLiteral : Node := objectLiteral [pairLiteral "type" (textLiteral "shape")]

theorem untold_member_omitted :
    ∃ object, Project.LeafMember false (siteOf (pairLiteral "mode" untoldLiteral)) "mode" object ∧
      bareProject.Untold object (.unknownOptionType (.text "shape")) ∧
      bareProject.entryOf? false (fun _ => .ok []) (siteOf (pairLiteral "mode" untoldLiteral)) =
        .ok none := by
  obtain ⟨object, hleaf, hfails⟩ : ∃ object,
      Project.LeafMember false (siteOf (pairLiteral "mode" untoldLiteral)) "mode" object ∧
        bareProject.extractSetting "mode" object =
          .ok (.error (.unknownOptionType (.text "shape"))) :=
    ⟨_, ⟨rfl, rfl, rfl, rfl, rfl⟩, rfl⟩
  have huntold := (untold_settings_omitted.1 "mode" object _).1 hfails
  exact ⟨object, hleaf, huntold, ((untold_settings_omitted.2 _ _).2 _ _ _ hleaf).2 ⟨_, huntold⟩⟩

end SettingsHarvest
