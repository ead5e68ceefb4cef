import SettingsHarvest.Proofs.Nix.Collisions

/-! The switch of a plugin.

A plugin is enabled by its attribute `enable`: that of its own setting with this name, or one that is made
for it (`promisedSwitch`). The attribute goes to the first of the settings and groups whose identifier it
is (`switch_found`), whatever that is called. So the switch is the one that was promised exactly if the
settings leave it its attribute (`switch_promised_iff`). -/
namespace SettingsHarvest.Nix

/-! ### Attributes by key -/

section Lookup

variable {α : Type} {nameOf : α → String} {term : α → Except Fault Term} {items : List α}
  {added : List (String × Term)} {key : String}

theorem Granted.lookup_of_first (h : Granted nameOf term [] items added) {x : α}
    (hx : first? nameOf items key = some x) : ∃ t, term x = .ok t ∧ added.lookup key = some t := by
  have hclaims := mem_claimants_of_first List.not_mem_nil hx
  obtain ⟨t, ht, hterm⟩ := h.exists_attribute hclaims
  have hkey : wanted nameOf x = key := by simpa using List.find?_some hx
  have hdistinct : (SettingsHarvest.keysOf added).Nodup := by
    rw [h.keysOf]
    exact nodup_map_wanted_claimants [] items
  exact ⟨t, hterm, lookup_of_mem hdistinct (hkey ▸ ht)⟩

theorem Granted.lookup_eq_none (h : Granted nameOf term [] items added)
    (hnone : first? nameOf items key = none) : added.lookup key = none := by
  have hfree : key ∉ SettingsHarvest.keysOf added := by
    rw [h.keysOf, mem_map_wanted_claimants, ← first?_isSome_iff, hnone]
    simp
  refine List.lookup_eq_none_iff.2 fun v hv => bne_iff_ne.2 ?_
  rintro rfl
  exact hfree (mem_keysOf.2 ⟨v.2, hv⟩)

end Lookup

/-! ### What is promised -/

/-- The setting called `enable` among some entries. -/
def ownSwitch? : Entries → Option Setting
  | [] => none
  | (_, .setting s) :: rest => if s.name = enableName then some s else ownSwitch? rest
  | (_, .group _ _) :: rest => ownSwitch? rest

/-- The switch a plugin should have: its own, or one with its description. -/
def promisedSwitch (p : Plugin) (category : Option String) : Except Fault Term :=
  match ownSwitch? p.settings with
  | some s => enableOption s.description category
  | none => enableOption p.description category

/-- Entries that leave the switch its attribute. The first that asks for it is the setting called so; where
none asks for it, none stands under its name as a key either. -/
def LeavesSwitch (entries : Entries) : Prop :=
  match first? entryName entries enableName with
  | some (_, .setting s) => s.name = enableName
  | some (_, .group _ _) => False
  | none => entries.lookup enableName = none

/-! ### What becomes of it -/

theorem lookup_switch_assignAll {values : List (String × Term)} (h : (keysOf values).Nodup) (t : Term) :
    (assignAll [(enableName, t)] values).lookup enableName = some ((values.lookup enableName).getD t) := by
  have hone : (keysOf [(enableName, t)]).Nodup := List.nodup_singleton _
  refine lookup_of_mem (nodup_keysOf_assignAll hone) ((mem_assignAll hone h _).2 ?_)
  cases hlookup : values.lookup enableName with
  | some own => exact .inl (mem_of_lookup hlookup)
  | none =>
    refine .inr ⟨fun hkey => ?_, List.mem_singleton_self _⟩
    obtain ⟨own, hown⟩ := mem_keysOf.1 hkey
    simpa using List.lookup_eq_none_iff.1 hlookup _ hown

/-- The switch of a plugin is what the first setting or group that asks for it comes to, and one that is made
for it only if there is none. -/
theorem switch_found {p : Plugin} {category : Option String} {b : Attributes}
    (h : pluginAttributes p category = .ok b) :
    match first? entryName p.settings enableName with
    | some entry => ∃ t, entryTerm category entry = .ok t ∧ b.values.lookup enableName = some t
    | none =>
      if (p.settings.lookup enableName).isSome then b.values.lookup enableName = none
      else ∃ t, enableOption p.description category = .ok t ∧ b.values.lookup enableName = some t := by
  obtain ⟨a, ha, h⟩ := bind_eq_ok.1 h
  have hgranted := granted_addEntries ha
  have hdistinct := (hgranted.madeFor entryTerm_shown).distinct
  cases hown : (p.settings.lookup enableName).isSome with
  | true =>
    rw [hown, if_pos rfl] at h
    rw [← pure_eq_ok.1 h]
    cases hfirst : first? entryName p.settings enableName with
    | some entry => exact hgranted.lookup_of_first hfirst
    | none => exact hgranted.lookup_eq_none hfirst
  | false =>
    rw [hown, if_neg Bool.false_ne_true] at h
    obtain ⟨made, hmade, h⟩ := bind_eq_ok.1 h
    have hlookup : b.values.lookup enableName = some ((a.values.lookup enableName).getD made) := by
      rw [← pure_eq_ok.1 h]
      exact lookup_switch_assignAll hdistinct made
    cases hfirst : first? entryName p.settings enableName with
    | some entry =>
      obtain ⟨t, ht, ha⟩ := hgranted.lookup_of_first hfirst
      rw [ha] at hlookup
      exact ⟨t, ht, hlookup⟩
    | none =>
      rw [hgranted.lookup_eq_none hfirst] at hlookup
      exact ⟨made, hmade, hlookup⟩

/-! ### Switches and other options -/

theorem enableOption_text {description category : Option String} {t : Term}
    (h : enableOption description category = .ok t) : ∃ text, t = .raw ("mkEnableOption " ++ text) := by
  cases category with
  | none => exact ⟨_, (pure_eq_ok.1 h).symm⟩
  | some c =>
    obtain ⟨label, -, h⟩ := bind_eq_ok.1 h
    exact ⟨_, (pure_eq_ok.1 h).symm⟩

theorem settingTerm_text {s : Setting} {category : Option String} {t : Term} (hname : s.name ≠ enableName)
    (h : settingTerm s category = .ok t) : ∃ text, t = .raw ("mkOption " ++ text) := by
  rw [settingTerm, if_neg (by simpa using hname)] at h
  obtain ⟨attributes, -, h⟩ := bind_eq_ok.1 h
  exact ⟨_, (pure_eq_ok.1 h).symm⟩

/-- No option is a switch. -/
theorem option_ne_switch (a b : String) : "mkOption " ++ a ≠ "mkEnableOption " ++ b := by
  intro h
  have hchars := congrArg String.toList h
  rw [String.toList_append, String.toList_append] at hchars
  exact absurd (congrArg (·[2]?) hchars) (by simp)

theorem wanted_of_enableName {entry : String × Entry} (h : entryName entry = enableName) :
    wanted entryName entry = enableName := by
  rw [wanted, h]
  decide

theorem mem_of_ownSwitch {entries : Entries} {s : Setting} (h : ownSwitch? entries = some s) :
    s.name = enableName ∧ ∃ key, (key, .setting s) ∈ entries := by
  induction entries with
  | nil => cases h
  | cons entry rest ih =>
    obtain ⟨key, other | ⟨name, inner⟩⟩ := entry
    · rw [ownSwitch?] at h
      split at h
      · next hname =>
        cases h
        exact ⟨hname, key, List.mem_cons_self⟩
      · obtain ⟨hname, k, hmem⟩ := ih h
        exact ⟨hname, k, List.mem_cons_of_mem _ hmem⟩
    · obtain ⟨hname, k, hmem⟩ := ih h
      exact ⟨hname, k, List.mem_cons_of_mem _ hmem⟩

theorem ownSwitch?_eq_none {entries : Entries} (h : first? entryName entries enableName = none) :
    ownSwitch? entries = none := by
  cases hown : ownSwitch? entries with
  | none => rfl
  | some s =>
    obtain ⟨hname, key, hmem⟩ := mem_of_ownSwitch hown
    have hsome : (first? entryName entries enableName).isSome = true :=
      first?_isSome_iff.2 ⟨_, hmem, wanted_of_enableName hname⟩
    rw [h] at hsome
    cases hsome

/-- The setting called `enable` is the first called so if it is the first that asks for the attribute. -/
theorem ownSwitch?_of_first {entries : Entries} {key : String} {s : Setting} (hname : s.name = enableName)
    (h : first? entryName entries enableName = some (key, .setting s)) : ownSwitch? entries = some s := by
  induction entries with
  | nil => cases h
  | cons entry rest ih =>
    rw [← List.singleton_append, first?_append, first?_singleton] at h
    split at h
    · next hasks =>
      cases Option.some.inj h
      rw [ownSwitch?, if_pos hname]
    · next hasks =>
      obtain ⟨k, other | ⟨name, inner⟩⟩ := entry
      · have hother : other.name ≠ enableName := fun hname =>
          hasks (wanted_of_enableName hname : wanted entryName (k, .setting other) = enableName).symm
        rw [ownSwitch?, if_neg hother]
        exact ih h
      · exact ih h

theorem promisedSwitch_text {p : Plugin} {category : Option String} {t : Term}
    (h : promisedSwitch p category = .ok t) : ∃ text, t = .raw ("mkEnableOption " ++ text) := by
  rw [promisedSwitch] at h
  split at h <;> exact enableOption_text h

/-- **The switch of a plugin.** The attribute that enables a plugin is the switch it should have exactly if
its settings leave the switch its attribute. -/
theorem switch_promised_iff (p : Plugin) (category : Option String) :
    Ends (Unwritable category fun s => ∃ path, Reaches p.settings path s)
      (fun b => (∃ t, promisedSwitch p category = .ok t ∧ b.values.lookup enableName = some t) ↔
        LeavesSwitch p.settings)
      (pluginAttributes p category) where
  fault := (ends_pluginAttributes p fun path s hreaches => ⟨path, hreaches⟩).fault
  result {b} h := by
    have hfound := switch_found h
    cases hfirst : first? entryName p.settings enableName with
    | none =>
      rw [hfirst] at hfound
      rw [promisedSwitch, LeavesSwitch, hfirst, ownSwitch?_eq_none hfirst, ← Option.not_isSome_iff_eq_none]
      dsimp only at hfound ⊢
      split at hfound
      · next hkey => simp [hfound, hkey]
      · next hkey => exact iff_of_true hfound hkey
    | some entry =>
      rw [hfirst] at hfound
      obtain ⟨t, ht, hlookup⟩ := hfound
      have hother (hne : ∀ text, t ≠ .raw ("mkEnableOption " ++ text)) :
          ¬∃ t, promisedSwitch p category = .ok t ∧ b.values.lookup enableName = some t := by
        rintro ⟨t', hpromised, hlookup'⟩
        obtain ⟨text, rfl⟩ := promisedSwitch_text hpromised
        exact hne text (Option.some.inj (hlookup.symm.trans hlookup'))
      obtain ⟨key, s | ⟨name, inner⟩⟩ := entry
      · rw [LeavesSwitch, hfirst]
        by_cases hname : s.name = enableName
        · rw [entryTerm, settingTerm, if_pos (by simpa using hname)] at ht
          rw [promisedSwitch, ownSwitch?_of_first hname hfirst]
          exact iff_of_true ⟨t, ht, hlookup⟩ hname
        · obtain ⟨text, rfl⟩ := settingTerm_text hname ht
          refine iff_of_false (hother fun other h => ?_) hname
          exact option_ne_switch _ _ (Term.raw.inj h)
      · rw [LeavesSwitch, hfirst]
        obtain ⟨c, -, hset⟩ := bind_eq_ok.1 ht
        cases pure_eq_ok.1 hset
        refine iff_of_false (hother fun text h => ?_) id
        cases h

/-- A setting that is called otherwise takes the switch, and nothing reports it. -/
theorem switch_taken :
    ∃ b, pluginAttributes (pluginWithSwitches ["Enable"]) none = .ok b ∧ b.collisions = [] ∧
      b.values.lookup enableName = some switchTerm ∧
      promisedSwitch (pluginWithSwitches ["Enable"]) none = .ok (.raw "mkEnableOption \"\"") ∧
      ¬LeavesSwitch (pluginWithSwitches ["Enable"]).settings := by
  have hfirst : first? entryName (pluginWithSwitches ["Enable"]).settings enableName =
      some ("Enable", .setting (plainSwitch "Enable")) :=
    (first?_singleton _ _).trans (if_pos (by decide))
  refine ⟨_, pluginAttributes_switches (by decide), by decide, rfl, rfl, ?_⟩
  rw [LeavesSwitch, hfirst]
  decide

end SettingsHarvest.Nix
