import SettingsHarvest.Proofs.Nix.Attributes
import SettingsHarvest.Proofs.Nix.Identifier

/-! Names that are printed twice.

A set keeps one attribute for each identifier, and prints the identifier of that identifier. The names
it prints are distinct as long as identifiers that settle alike are alike: `printed_names_distinct_iff`
says so of all sets of a module, with the names of plugins, settings and groups that each of them is
made from (`ModuleLevel`). -/
namespace SettingsHarvest.Nix

/-! ### Sets -/

/-- The names that a set prints. -/
def printedNames (attributes : List (String × Term)) : List String :=
  (attributes.filter (!·.2.isNull)).map (identifierText ·.1)

/-- Every line of a set begins with a name that it prints. -/
theorem writeAttributes_eq (unit : String) (level : Nat) (attributes : List (String × Term)) :
    writeAttributes unit level attributes =
      (attributes.filter (!·.2.isNull)).map fun (name, t) =>
        (name, indentation unit level ++ identifierText name ++ " = " ++ t.write unit level ++ ";") := by
  induction attributes with
  | nil => rfl
  | cons v rest ih =>
    obtain ⟨name, t⟩ := v
    rw [writeAttributes, List.filter_cons, ih]
    cases t.isNull <;> rfl

/-- The sets in a term, the term itself among them. -/
inductive Term.Encloses : Term → List (String × Term) → Prop where
  | self (attributes : List (String × Term)) : Encloses (.set attributes) attributes
  | member {attributes inner : List (String × Term)} {v : String × Term} :
    v ∈ attributes → Encloses v.2 inner → Encloses (.set attributes) inner
  | item {items : List Term} {t : Term} {inner : List (String × Term)} :
    t ∈ items → Encloses t inner → Encloses (.list items) inner

/-- The attributes of a set that is made for some names: one for each identifier, and all of them shown. -/
structure MadeFor (names : List String) (attributes : List (String × Term)) : Prop where
  distinct : (keysOf attributes).Nodup
  keys : ∀ key, key ∈ keysOf attributes ↔ ∃ name ∈ names, identifierText name = key
  shown : ∀ v ∈ attributes, v.2.isNull = false

/-- Names that are told apart by their identifiers but not by what these settle to. -/
def Merge (a b : String) : Prop :=
  identifier a.toList ≠ identifier b.toList ∧
    settle (identifier a.toList) = settle (identifier b.toList)

instance (a b : String) : Decidable (Merge a b) := inferInstanceAs (Decidable (_ ∧ _))

theorem identifierText_inj {a b : String} :
    identifierText a = identifierText b ↔ identifier a.toList = identifier b.toList :=
  String.ofList_inj

theorem identifierText_identifierText (name : String) :
    identifierText (identifierText name) = String.ofList (settle (identifier name.toList)) := by
  rw [identifierText, identifierText, String.toList_ofList, identifier_identifier]

theorem MadeFor.nodup_printedNames {names : List String} {attributes : List (String × Term)}
    (h : MadeFor names attributes) :
    (printedNames attributes).Nodup ↔ ∀ a ∈ names, ∀ b ∈ names, ¬Merge a b := by
  have hall : printedNames attributes = (keysOf attributes).map identifierText := by
    have hkept : attributes.filter (!·.2.isNull) = attributes :=
      List.filter_eq_self.2 fun v hv => by rw [h.shown v hv]; rfl
    rw [printedNames, hkept, keysOf, List.map_map]
    rfl
  rw [hall, List.nodup_map_iff_inj_on h.distinct]
  constructor
  · rintro hinj a ha b hb ⟨hne, hsettle⟩
    have hkeys := hinj _ ((h.keys _).2 ⟨a, ha, rfl⟩) _ ((h.keys _).2 ⟨b, hb, rfl⟩)
    rw [identifierText_identifierText, identifierText_identifierText, hsettle] at hkeys
    exact hne (identifierText_inj.1 (hkeys rfl))
  · intro hmerge key hkey key' hkey' heq
    obtain ⟨a, ha, rfl⟩ := (h.keys _).1 hkey
    obtain ⟨b, hb, rfl⟩ := (h.keys _).1 hkey'
    rw [identifierText_identifierText, identifierText_identifierText, String.ofList_inj] at heq
    refine identifierText_inj.2 (Classical.byContradiction fun hne => ?_)
    exact hmerge a ha b hb ⟨hne, heq⟩

theorem Granted.madeFor {α : Type} {nameOf : α → String} {term : α → Except Fault Term}
    {items : List α} {added : List (String × Term)} (h : Granted nameOf term [] items added)
    (hshown : ∀ x t, term x = .ok t → t.isNull = false) : MadeFor (items.map nameOf) added := by
  refine ⟨?_, fun key => ?_, fun v hv => ?_⟩
  · rw [h.keysOf]
    exact nodup_map_wanted_claimants [] items
  · rw [h.keysOf, mem_map_wanted_claimants]
    simp [wanted]
  · obtain ⟨x, -, hx⟩ := h.exists_claimant hv
    exact hshown x v.2 hx

/-! ### Levels -/

/-- The names in the set of some entries, or in one of a group that is kept. -/
inductive EntryLevel : Entries → List String → Prop where
  | own (entries : Entries) : EntryLevel entries (entries.map entryName)
  | group {entries inner : Entries} {key name : String} {names : List String} :
    (key, .group name inner) ∈ claimants entryName [] entries → EntryLevel inner names →
      EntryLevel entries names

/-- The names a plugin has attributes for; without a setting for enabling it gets one. -/
def pluginNames (p : Plugin) : List String :=
  p.settings.map entryName ++ if (p.settings.lookup enableName).isSome then [] else [enableName]

inductive PluginLevel (p : Plugin) : List String → Prop where
  | own : PluginLevel p (pluginNames p)
  | group {inner : Entries} {key name : String} {names : List String} :
    (key, .group name inner) ∈ claimants entryName [] p.settings → EntryLevel inner names →
      PluginLevel p names

/-- The names in the set of a module, or in one of a plugin that is kept. -/
inductive ModuleLevel (plugins : List (String × Plugin)) : List String → Prop where
  | own : ModuleLevel plugins (plugins.map (·.1))
  | plugin {name : String} {p : Plugin} {names : List String} :
    (name, p) ∈ claimants (·.1) [] plugins → PluginLevel p names → ModuleLevel plugins names

/-- Whether the sets in a term are those made for the names on some levels. -/
structure Term.Follows (t : Term) (level : List String → Prop) : Prop where
  level_of_set : ∀ attributes, t.Encloses attributes → ∃ names, level names ∧ MadeFor names attributes
  set_of_level : ∀ names, level names → ∃ attributes, t.Encloses attributes ∧ MadeFor names attributes

theorem Term.Follows.nodup_iff {t : Term} {level : List String → Prop} (h : t.Follows level) :
    (∀ attributes, t.Encloses attributes → (printedNames attributes).Nodup) ↔
      ∀ names, level names → ∀ a ∈ names, ∀ b ∈ names, ¬Merge a b := by
  constructor
  · intro hdistinct names hlevel
    obtain ⟨attributes, hset, hmade⟩ := h.set_of_level names hlevel
    exact hmade.nodup_printedNames.1 (hdistinct attributes hset)
  · intro hmerge attributes hset
    obtain ⟨names, hlevel, hmade⟩ := h.level_of_set attributes hset
    exact hmade.nodup_printedNames.2 (hmerge names hlevel)

/-- A set follows the level of its own names and those that its attributes follow. -/
theorem follows_set {ι : Type} {inside : ι → Prop} {below : ι → List String → Prop}
    {level : List String → Prop} {names : List String} {values : List (String × Term)}
    (hlevel : ∀ ns, level ns ↔ ns = names ∨ ∃ i, inside i ∧ below i ns) (hmade : MadeFor names values)
    (hdown : ∀ v ∈ values, (∃ text, v.2 = .raw text) ∨ ∃ i, inside i ∧ v.2.Follows (below i))
    (hup : ∀ i, inside i → ∃ v ∈ values, v.2.Follows (below i)) : (Term.set values).Follows level := by
  constructor
  · intro attributes hset
    cases hset with
    | self => exact ⟨names, (hlevel _).2 (Or.inl rfl), hmade⟩
    | @member _ _ v hv hinner =>
      rcases hdown v hv with ⟨text, htext⟩ | ⟨i, hi, hfollows⟩
      · rw [htext] at hinner
        nomatch hinner
      · obtain ⟨ns, hns, hmade⟩ := hfollows.level_of_set _ hinner
        exact ⟨ns, (hlevel _).2 (Or.inr ⟨i, hi, hns⟩), hmade⟩
  · intro ns hns
    rcases (hlevel ns).1 hns with rfl | ⟨i, hi, hns⟩
    · exact ⟨values, .self values, hmade⟩
    · obtain ⟨v, hv, hfollows⟩ := hup i hi
      obtain ⟨attributes, hset, hmade⟩ := hfollows.set_of_level ns hns
      exact ⟨attributes, .member hv hset, hmade⟩

/-! ### Settings and groups -/

theorem enableOption_raw {description category : Option String} {t : Term}
    (h : enableOption description category = .ok t) : ∃ text, t = .raw text := by
  cases category with
  | none => exact ⟨_, (pure_eq_ok.1 h).symm⟩
  | some c =>
    obtain ⟨label, -, h⟩ := bind_eq_ok.1 h
    exact ⟨_, (pure_eq_ok.1 h).symm⟩

theorem settingTerm_raw {s : Setting} {category : Option String} {t : Term}
    (h : settingTerm s category = .ok t) : ∃ text, t = .raw text := by
  rw [settingTerm] at h
  split at h
  · exact enableOption_raw h
  · rw [bind_eq_ok] at h
    obtain ⟨attributes, -, h⟩ := h
    exact ⟨_, (pure_eq_ok.1 h).symm⟩

/-- A setting becomes an option, which is text, and a group a set. -/
theorem entryTerm_cases {category : Option String} {entry : String × Entry} {t : Term}
    (h : entryTerm category entry = .ok t) :
    (∃ text, t = .raw text) ∨ ∃ key name inner b, entry = (key, .group name inner) ∧
      addEntries category .empty inner = .ok b ∧ t = .set b.values := by
  obtain ⟨key, s | ⟨name, inner⟩⟩ := entry
  · exact Or.inl (settingTerm_raw h)
  · rw [entryTerm, bind_eq_ok] at h
    obtain ⟨b, hb, h⟩ := h
    exact Or.inr ⟨key, name, inner, b, rfl, hb, (pure_eq_ok.1 h).symm⟩

theorem entryTerm_shown {category : Option String} (entry : String × Entry) (t : Term)
    (h : entryTerm category entry = .ok t) : t.isNull = false := by
  rcases entryTerm_cases h with ⟨text, rfl⟩ | ⟨_, _, _, _, -, -, rfl⟩ <;> rfl

theorem granted_addEntries {category : Option String} {entries : Entries} {b : Attributes}
    (h : addEntries category .empty entries = .ok b) :
    Granted entryName (entryTerm category) [] entries b.values := by
  obtain ⟨-, added, hadded, hgranted⟩ := grown_addEntries Attributes.owned_empty h
  rw [show b.values = added from hadded]
  exact hgranted

/-- A group among some entries that nothing before it takes the attribute of. -/
def KeptGroup (entries inner : Entries) : Prop :=
  ∃ key name, (key, .group name inner) ∈ claimants entryName [] entries

theorem entryLevel_iff (entries : Entries) (names : List String) :
    EntryLevel entries names ↔ names = entries.map entryName ∨
      ∃ inner, KeptGroup entries inner ∧ EntryLevel inner names := by
  constructor
  · rintro (_ | ⟨hmem, hlevel⟩)
    · exact Or.inl rfl
    · exact Or.inr ⟨_, ⟨_, _, hmem⟩, hlevel⟩
  · rintro (rfl | ⟨inner, ⟨key, name, hmem⟩, hlevel⟩)
    · exact .own entries
    · exact .group hmem hlevel

/-- What is granted to entries is text, or the set of a group that is kept. -/
theorem Granted.group_or_raw {category : Option String} {entries : Entries}
    {added : List (String × Term)} (h : Granted entryName (entryTerm category) [] entries added)
    {v : String × Term} (hv : v ∈ added) :
    (∃ text, v.2 = .raw text) ∨ ∃ inner b, KeptGroup entries inner ∧
      addEntries category .empty inner = .ok b ∧ v.2 = .set b.values := by
  obtain ⟨entry, hentry, hterm⟩ := h.exists_claimant hv
  rcases entryTerm_cases hterm with hraw | ⟨key, name, inner, b, rfl, hb, ht⟩
  · exact Or.inl hraw
  · exact Or.inr ⟨inner, b, ⟨key, name, hentry⟩, hb, ht⟩

theorem Granted.exists_group {category : Option String} {entries inner : Entries}
    {added : List (String × Term)} (h : Granted entryName (entryTerm category) [] entries added)
    (hinner : KeptGroup entries inner) :
    ∃ v ∈ added, ∃ b, addEntries category .empty inner = .ok b ∧ v.2 = .set b.values := by
  obtain ⟨key, name, hmem⟩ := hinner
  obtain ⟨t, ht, hterm⟩ := h.exists_attribute hmem
  rw [entryTerm, bind_eq_ok] at hterm
  obtain ⟨b, hb, hterm⟩ := hterm
  exact ⟨_, ht, b, hb, (pure_eq_ok.1 hterm).symm⟩

/-- A set of what is granted to entries, and of text besides, follows the levels of the groups that are
kept if their sets do. -/
theorem Granted.follows {category : Option String} {entries : Entries} {names : List String}
    {level : List String → Prop} {added values : List (String × Term)}
    (h : Granted entryName (entryTerm category) [] entries added)
    (hlevel : ∀ ns, level ns ↔ ns = names ∨ ∃ inner, KeptGroup entries inner ∧ EntryLevel inner ns)
    (hmade : MadeFor names values) (hsub : ∀ v ∈ added, v ∈ values)
    (hrest : ∀ v ∈ values, v ∈ added ∨ ∃ text, v.2 = .raw text)
    (hgroups : ∀ inner, KeptGroup entries inner → ∀ b, addEntries category .empty inner = .ok b →
      (Term.set b.values).Follows (EntryLevel inner)) : (Term.set values).Follows level := by
  refine follows_set hlevel hmade ?_ ?_
  · intro v hv
    rcases hrest v hv with hv | hraw
    · rcases h.group_or_raw hv with hraw | ⟨inner, b, hinner, hb, ht⟩
      · exact Or.inl hraw
      · rw [ht]
        exact Or.inr ⟨inner, hinner, hgroups inner hinner b hb⟩
    · exact Or.inl hraw
  · intro inner hinner
    obtain ⟨v, hv, b, hb, ht⟩ := h.exists_group hinner
    have hfollows := hgroups inner hinner b hb
    rw [← ht] at hfollows
    exact ⟨v, hsub v hv, hfollows⟩

theorem follows_addEntries {category : Option String} {entries : Entries} {b : Attributes}
    (h : addEntries category .empty entries = .ok b) :
    (Term.set b.values).Follows (EntryLevel entries) := by
  have hgranted := granted_addEntries h
  exact hgranted.follows (entryLevel_iff entries) (hgranted.madeFor entryTerm_shown)
    (fun _ hv => hv) (fun _ hv => Or.inl hv) fun inner hinner c hc => follows_addEntries hc
termination_by sizeOf entries
decreasing_by
  all_goals
    obtain ⟨key, name, hmem⟩ := hinner
    have hlt := List.sizeOf_lt_of_mem (mem_of_mem_claimants hmem)
    simp only [Prod.mk.sizeOf_spec, Entry.group.sizeOf_spec] at hlt
    omega

/-! ### Plugins -/

/-- A plugin has the attributes of its settings and groups, over the one for enabling it if it brings
none of its own. -/
theorem pluginAttributes_cases {p : Plugin} {category : Option String} {b : Attributes}
    (h : pluginAttributes p category = .ok b) :
    ∃ a, addEntries category .empty p.settings = .ok a ∧
      if (p.settings.lookup enableName).isSome then b.values = a.values
      else ∃ text, b.values = assignAll [(enableName, .raw text)] a.values := by
  obtain ⟨a, ha, h⟩ := bind_eq_ok.1 h
  refine ⟨a, ha, ?_⟩
  split
  · next hown =>
    rw [if_pos hown] at h
    rw [pure_eq_ok.1 h]
  · next hown =>
    rw [if_neg hown] at h
    obtain ⟨enable, henable, h⟩ := bind_eq_ok.1 h
    obtain ⟨text, rfl⟩ := enableOption_raw henable
    exact ⟨text, by rw [← pure_eq_ok.1 h]; rfl⟩

/-- Granted attributes under one more that is text. -/
theorem MadeFor.assignAll {names : List String} {values : List (String × Term)}
    (h : MadeFor names values) {name : String} (hname : identifierText name = name) (text : String) :
    MadeFor (names ++ [name]) (assignAll [(name, .raw text)] values) := by
  have hone : (keysOf [(name, Term.raw text)]).Nodup := List.nodup_singleton name
  refine ⟨nodup_keysOf_assignAll hone, fun key => ?_, fun v hv => ?_⟩
  · rw [mem_keysOf_assignAll, h.keys]
    simp only [keysOf_cons, keysOf_nil, List.mem_append, List.mem_singleton]
    constructor
    · rintro (rfl | ⟨n, hn, hkey⟩)
      · exact ⟨key, Or.inr rfl, hname⟩
      · exact ⟨n, Or.inl hn, hkey⟩
    · rintro ⟨n, hn | rfl, hkey⟩
      · exact Or.inr ⟨n, hn, hkey⟩
      · exact Or.inl (hkey.symm.trans hname)
  · rcases (mem_assignAll hone h.distinct v).1 hv with hv | ⟨-, hv⟩
    · exact h.shown v hv
    · rw [List.mem_singleton.1 hv]
      rfl

theorem pluginLevel_iff (p : Plugin) (names : List String) :
    PluginLevel p names ↔ names = pluginNames p ∨
      ∃ inner, KeptGroup p.settings inner ∧ EntryLevel inner names := by
  constructor
  · rintro (_ | ⟨hmem, hlevel⟩)
    · exact Or.inl rfl
    · exact Or.inr ⟨_, ⟨_, _, hmem⟩, hlevel⟩
  · rintro (rfl | ⟨inner, ⟨key, name, hmem⟩, hlevel⟩)
    · exact .own
    · exact .group hmem hlevel

theorem follows_pluginAttributes {p : Plugin} {category : Option String} {b : Attributes}
    (h : pluginAttributes p category = .ok b) : (Term.set b.values).Follows (PluginLevel p) := by
  obtain ⟨a, ha, hb⟩ := pluginAttributes_cases h
  have hgranted := granted_addEntries ha
  have hmade := hgranted.madeFor entryTerm_shown
  have hgroups (inner : Entries) (_ : KeptGroup p.settings inner) (c : Attributes)
      (hc : addEntries category .empty inner = .ok c) :
      (Term.set c.values).Follows (EntryLevel inner) := follows_addEntries hc
  split at hb
  · next hown =>
    refine hgranted.follows (pluginLevel_iff p) ?_ ?_ ?_ hgroups
    · rwa [pluginNames, if_pos hown, List.append_nil, hb]
    · rw [hb]
      exact fun _ hv => hv
    · rw [hb]
      exact fun _ hv => Or.inl hv
  · next hown =>
    obtain ⟨text, hb⟩ := hb
    have hone : (keysOf [(enableName, Term.raw text)]).Nodup := List.nodup_singleton _
    have hmem (v : String × Term) := mem_assignAll hone hmade.distinct v
    refine hgranted.follows (pluginLevel_iff p) ?_ (fun v hv => ?_) (fun v hv => ?_) hgroups
    · rw [pluginNames, if_neg hown, hb]
      exact hmade.assignAll (by decide) text
    · rw [hb, hmem]
      exact Or.inl hv
    · rw [hb, hmem] at hv
      rcases hv with hv | ⟨-, hv⟩
      · exact Or.inl hv
      · exact Or.inr ⟨text, by rw [List.mem_singleton.1 hv]⟩

/-! ### Modules -/

/-- The term that a module is the text of. -/
def moduleTerm (plugins : List (String × Plugin)) (category : Option String) : Except Fault Term := do
  return .set (← addPlugins category .empty plugins).values

theorem moduleOf_text {plugins : List (String × Plugin)} {category : Option String} {m : Module}
    (h : moduleOf plugins category = .ok m) :
    ∃ t, moduleTerm plugins category = .ok t ∧
      m.text = "\n".intercalate (moduleHeader ++ [t.write standardUnit 0]) := by
  obtain ⟨a, ha, h⟩ := bind_eq_ok.1 h
  refine ⟨.set a.values, ?_, by rw [← pure_eq_ok.1 h]⟩
  rw [moduleTerm, ha]
  rfl

theorem moduleLevel_iff (plugins : List (String × Plugin)) (names : List String) :
    ModuleLevel plugins names ↔ names = plugins.map (·.1) ∨
      ∃ p, (∃ name, (name, p) ∈ claimants (·.1) [] plugins) ∧ PluginLevel p names := by
  constructor
  · rintro (_ | ⟨hmem, hlevel⟩)
    · exact Or.inl rfl
    · exact Or.inr ⟨_, ⟨_, hmem⟩, hlevel⟩
  · rintro (rfl | ⟨p, ⟨name, hmem⟩, hlevel⟩)
    · exact .own
    · exact .plugin hmem hlevel

/-- A plugin becomes the set of its attributes. -/
theorem pluginTerm_cases {category : Option String} {plugin : String × Plugin} {t : Term}
    (h : pluginTerm category plugin = .ok t) :
    ∃ b, pluginAttributes plugin.2 category = .ok b ∧ t = .set b.values := by
  obtain ⟨b, hb, h⟩ := bind_eq_ok.1 h
  exact ⟨b, hb, (pure_eq_ok.1 h).symm⟩

theorem follows_moduleTerm {plugins : List (String × Plugin)} {category : Option String} {t : Term}
    (h : moduleTerm plugins category = .ok t) : t.Follows (ModuleLevel plugins) := by
  obtain ⟨b, hb, h⟩ := bind_eq_ok.1 h
  obtain ⟨-, added, hadded, hgranted⟩ := grown_addPlugins Attributes.owned_empty hb
  change b.values = added at hadded
  rw [← pure_eq_ok.1 h, hadded]
  refine follows_set (moduleLevel_iff plugins) (hgranted.madeFor fun plugin t ht => ?_)
    (fun v hv => ?_) ?_
  · obtain ⟨c, -, rfl⟩ := pluginTerm_cases ht
    rfl
  · obtain ⟨plugin, hplugin, hterm⟩ := hgranted.exists_claimant hv
    obtain ⟨c, hc, ht⟩ := pluginTerm_cases hterm
    rw [ht]
    exact Or.inr ⟨plugin.2, ⟨plugin.1, hplugin⟩, follows_pluginAttributes hc⟩
  · rintro p ⟨name, hmem⟩
    obtain ⟨t, ht, hterm⟩ := hgranted.exists_attribute hmem
    obtain ⟨c, hc, rfl⟩ := pluginTerm_cases hterm
    exact ⟨_, ht, follows_pluginAttributes hc⟩

/-- **Distinct names.** All sets of a module print distinct names exactly when nowhere on its levels two
names merge: names that are told apart by their identifiers, but not by what these settle to. -/
theorem printed_names_distinct_iff {plugins : List (String × Plugin)} {category : Option String}
    {m : Module} (h : moduleOf plugins category = .ok m) :
    ∃ t, moduleTerm plugins category = .ok t ∧
      m.text = "\n".intercalate (moduleHeader ++ [t.write standardUnit 0]) ∧
      ((∀ attributes, t.Encloses attributes → (printedNames attributes).Nodup) ↔
        ∀ names, ModuleLevel plugins names → ∀ a ∈ names, ∀ b ∈ names, ¬Merge a b) := by
  obtain ⟨t, ht, htext⟩ := moduleOf_text h
  exact ⟨t, ht, htext, (follows_moduleTerm ht).nodup_iff⟩

/-! ### Switches -/

/-- A switch that is off. -/
def plainSwitch (name : String) : Setting :=
  ⟨name, .bool, none, some (.truth false), none, none, none, false, false⟩

/-- A plugin with switches of some names. -/
def pluginWithSwitches (names : List String) : Plugin :=
  ⟨"Demo", "demo", names.map fun name => (name, .setting (plainSwitch name)), none, false⟩

def switchTerm : Term :=
  .raw ("mkOption " ++ (Term.set [("type", .raw "types.bool"), ("default", .truth false)]).write
    standardUnit optionLevel)

/-- The attributes of some switches. -/
def switchAttributes (names : List String) : List (String × Term) :=
  assignAll [(enableName, .raw "mkEnableOption \"\"")]
    (names.foldl (fun a name => a.offer name switchTerm) Attributes.empty).values

theorem settingTerm_plainSwitch {name : String} (h : name ≠ enableName) :
    settingTerm (plainSwitch name) none = .ok switchTerm := by
  rw [settingTerm, if_neg (by simpa [plainSwitch] using h)]
  rfl

theorem addEntries_switches {names : List String} (h : enableName ∉ names) (a : Attributes) :
    addEntries none a (pluginWithSwitches names).settings =
      .ok (names.foldl (fun a name => a.offer name switchTerm) a) := by
  induction names generalizing a with
  | nil => simp [pluginWithSwitches, addEntries]
  | cons name rest ih =>
    obtain ⟨hname, hrest⟩ := not_or.1 (mt List.mem_cons.2 h)
    rw [show (pluginWithSwitches (name :: rest)).settings =
      (name, .setting (plainSwitch name)) :: (pluginWithSwitches rest).settings from rfl,
      addEntries, settingTerm_plainSwitch (Ne.symm hname)]
    exact ih hrest _

theorem lookup_switches {names : List String} (h : enableName ∉ names) :
    ((pluginWithSwitches names).settings.lookup enableName).isSome = false := by
  rw [Option.isSome_eq_false_iff, Option.isNone_iff_eq_none, List.lookup_eq_none_iff]
  rintro ⟨key, entry⟩ hmem
  obtain ⟨name, hname, heq⟩ := List.mem_map.1 hmem
  cases heq
  simpa using fun heq : enableName = key => h (heq ▸ hname)

theorem pluginAttributes_switches {names : List String} (h : enableName ∉ names) :
    pluginAttributes (pluginWithSwitches names) none =
      .ok { names.foldl (fun a name => a.offer name switchTerm) Attributes.empty with
        values := switchAttributes names } := by
  rw [pluginAttributes, addEntries_switches h]
  show (if ((pluginWithSwitches names).settings.lookup enableName).isSome then _ else _) = _
  rw [lookup_switches h]
  rfl

/-- A module of a single plugin with switches and no collisions. -/
theorem module_of_switches (names : List String) (h : enableName ∉ names)
    (hfree : (names.foldl (fun a name => a.offer name switchTerm) Attributes.empty).collisions = []) :
    ∃ m, moduleOf [("Demo", pluginWithSwitches names)] none = .ok m ∧ m.collisions = [] ∧
      moduleTerm [("Demo", pluginWithSwitches names)] none =
        .ok (.set [(identifierText "Demo", .set (switchAttributes names))]) := by
  have hplugin : ∃ b, pluginAttributes (pluginWithSwitches names) none = .ok b ∧
      b.values = switchAttributes names ∧ b.collisions = [] :=
    ⟨_, pluginAttributes_switches h, rfl, hfree⟩
  obtain ⟨b, hb, hvalues, hcollisions⟩ := hplugin
  rw [moduleOf, moduleTerm, addPlugins, hb]
  refine ⟨_, rfl, ?_, ?_⟩
  · show (Attributes.empty.note b.collisions).collisions = []
    rw [hcollisions]
    rfl
  · rw [← hvalues]
    rfl

theorem printed_names_distinct_of_switch :
    ∃ t, moduleTerm [("Demo", pluginWithSwitches ["fast"])] none = .ok t ∧
      ∀ attributes, t.Encloses attributes → (printedNames attributes).Nodup := by
  obtain ⟨m, hm, -, -⟩ := module_of_switches ["fast"] (by decide) (by decide)
  obtain ⟨t, ht, -, hiff⟩ := printed_names_distinct_iff hm
  refine ⟨t, ht, hiff.2 fun names hlevel => ?_⟩
  cases hlevel with
  | own => decide
  | plugin hmem hlevel =>
    obtain ⟨-, rfl⟩ := Prod.mk.inj (List.mem_singleton.1 (mem_of_mem_claimants hmem))
    cases hlevel with
    | own => decide
    | group hgroup => simpa [pluginWithSwitches] using mem_of_mem_claimants hgroup

/-- The names of two switches become one, and no collision is reported. -/
theorem switches_printed_twice :
    ∃ m t attributes, moduleOf [("Demo", pluginWithSwitches ["a_b_c_1", "a_bc_1"])] none = .ok m ∧
      m.collisions = [] ∧
      moduleTerm [("Demo", pluginWithSwitches ["a_b_c_1", "a_bc_1"])] none = .ok t ∧
      t.Encloses attributes ∧ printedNames attributes = ["enable", "aBc_1", "aBc_1"] ∧
      ¬(printedNames attributes).Nodup := by
  obtain ⟨m, hm, hcollisions, ht⟩ :=
    module_of_switches ["a_b_c_1", "a_bc_1"] (by decide) (by decide)
  refine ⟨m, _, switchAttributes ["a_b_c_1", "a_bc_1"], hm, hcollisions, ht, ?_, by decide, by decide⟩
  exact .member (List.mem_singleton_self _) (.self _)

end SettingsHarvest.Nix
