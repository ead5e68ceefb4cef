import Mathlib.Data.List.TakeWhile
import SettingsHarvest.Categories
import SettingsHarvest.Proofs.AliasTargets
import SettingsHarvest.Proofs.Checks
import SettingsHarvest.Proofs.Choices
import SettingsHarvest.Proofs.ScalarValues

/-! What accepted preferences can be used for.

Preferences can pass their checks and still hold values of a wrong kind, and whoever comes to use one of these
is stopped by it (`accepted_unusable`). `Usability` says of every use what it takes: of directories, imports
and categories exactly, of lookup tables which of their fields can spoil a matching, and of members of
enumerations with which values options can be collected. Values of the kinds they are used as do for
directories, imports, categories and tables (`Typed`, `Configuration.Works`). -/
namespace SettingsHarvest
open Syntax

/-! ### Renames -/

namespace Categories

/-- What a plugin is renamed to, whatever that is. -/
def renaming? (renames : Preferences) (name : String) : Option Datum :=
  ((Datum.lookup? (.text name) renames).filter (!isVoid ·)).or
    (Datum.lookup? (.text (Text.lower name)) renames)

/-- Renames that plugins can be told apart by: none leads to a list or a mapping. -/
def RenamesFit (renames : Preferences) : Prop :=
  ∀ name d, renaming? renames name = some d → d.isKey = true

theorem renaming?_eq (renames : Preferences) (name : String) :
    renaming? renames name = match Datum.lookup? (.text name) renames with
      | some d => if isVoid d then Datum.lookup? (.text (Text.lower name)) renames else some d
      | none => Datum.lookup? (.text (Text.lower name)) renames := by
  rw [renaming?]
  cases Datum.lookup? (.text name) renames with
  | none => rfl
  | some d => cases hvoid : isVoid d <;> simp [Option.filter, hvoid]

theorem renamed?_eq (renames : Preferences) (name : String) :
    renamed? renames name = match renaming? renames name with
      | some (.text s) => .ok (some s)
      | some d => if d.isKey then .ok none else .error (.notKey d.kind)
      | none => .ok none := by
  rw [renaming?_eq]
  rfl

theorem exists_renamed_iff {renames : Preferences} {name : String} :
    (∃ target, renamed? renames name = .ok target) ↔
      ∀ d, renaming? renames name = some d → d.isKey = true := by
  rw [renamed?_eq]
  cases renaming? renames name with
  | none => simp
  | some d =>
    cases d with
    | null | truth | integer | decimal | text | list | mapping | other => simp [Datum.isKey]

/-- There are categories for all catalogs exactly where the renames fit. -/
theorem exists_ofCatalogs_iff {renames : Preferences} :
    (∀ first second, ∃ split, ofCatalogs renames first second = .ok split) ↔ RenamesFit renames := by
  constructor
  · intro h name
    let lone : Catalog := ⟨[(name, ⟨name, name, [], none, false⟩)], [], .empty⟩
    obtain ⟨split, hsplit⟩ := h lone (some ⟨[], [], .empty⟩)
    obtain ⟨s, hs, -⟩ := bind_eq_ok.1 hsplit
    rw [Split.of, List.foldlM_cons] at hs
    obtain ⟨s', hs', -⟩ := bind_eq_ok.1 hs
    obtain ⟨c, hc, -⟩ := bind_eq_ok.1 hs'
    obtain ⟨target, htarget, -⟩ := bind_eq_ok.1 hc
    exact exists_renamed_iff.1 ⟨target, htarget⟩
  · intro h first second
    cases second with
    | none => exact ⟨_, rfl⟩
    | some second =>
      have hcounterpart (name : String) (p : Plugin) :
          ∃ c, counterpart? renames second name p = .ok c := by
        obtain ⟨target, htarget⟩ := exists_renamed_iff.2 (h name)
        rw [counterpart?, htarget]
        split <;> exact ⟨_, rfl⟩
      have hsplit : Ends (fun _ => False) (fun _ => True) (Split.of renames second first.shared) := by
        refine Ends.foldlM trivial fun e _ s _ => ?_
        obtain ⟨name, p⟩ := e
        obtain ⟨c, hc⟩ := hcounterpart name p
        dsimp only
        rw [hc]
        exact .ok trivial
      obtain ⟨s, hs, -⟩ := hsplit.exists_ok
      rw [ofCatalogs, hs]
      exact ⟨_, rfl⟩

end Categories

/-! ### Directories -/

theorem exists_placeOf_iff {d : Datum} :
    (∀ root given, ∃ path, Catalog.placeOf root given (Configuration.asPath d) = .ok path) ↔
      ∃ path, d = .text path := by
  constructor
  · intro h
    obtain ⟨path, hpath⟩ := h "" none
    obtain ⟨folder, hfolder, -⟩ := bind_eq_ok.1 hpath
    cases d with
    | text path => exact ⟨path, rfl⟩
    | null | truth | integer | decimal | list | mapping | other => cases hfolder
  · rintro ⟨path, rfl⟩ root given
    rw [Catalog.placeOf]
    split <;> exact ⟨_, rfl⟩

/-! ### Lookup tables -/

namespace Preferences

/-- What a lookup table stops a matching with: a constant that is a list or a mapping, a template that is
no text, or one that cannot be filled with some texts. -/
inductive Spoils (t : Datum) : Fault → Prop where
  | constant {key : String} {d : Datum} : key ∈ ["base_constant", "revision_constant"] →
    t.get? key = some d → d.isKey = false → Spoils t (.notKey d.kind)
  | template {d : Datum} : t.get? "template" = some d → (∀ text, d ≠ .text text) →
    Spoils t (.noAttribute d.kind "format")
  | filling {template base revision name : String} {f : Fault} :
    t.get? "template" = some (.text template) →
    Text.fill template [("base", base), ("revision", revision), ("name", name)] = .error f → Spoils t f

end Preferences

namespace Project

/-- What in the sources stops the matching of a call of a helper: a constant, or the name it is called
with. -/
def SourceFault (p : Project) (table name : Site) (f : Fault) : Prop :=
  (∃ constant, p.textConstant? table constant = .error f) ∨ name.stringValue = .error f

/-- What stops the matching of a call of a helper: the sources, or a table that has the helper. -/
def TableFault (p : Project) (tables : List Datum) (table call name : Site) (f : Fault) : Prop :=
  p.SourceFault table name f ∨ ∃ t ∈ tables, ∃ helper, t.get? "helper" = some (.text helper) ∧
    call.callee?.map (·.text) = some helper ∧ Preferences.Spoils t f

end Project

theorem lookups_ofPreferences (s : Preferences) :
    (Configuration.ofPreferences s).lookups = s.lookupTables.filterMap Configuration.asLookup? := by
  rw [Configuration.ofPreferences, Preferences.lookupTables]
  cases s.get "lookup_tables" <;> rfl

section Tables

variable {p : Project} {tables : List Datum} {table call name : Site} {t : Datum}

theorem ends_lookupConstant {F : Fault → Prop} {key : String}
    (hkey : key ∈ ["base_constant", "revision_constant"]) (hd : ∃ d, t.get? key = some d)
    (h : ∀ f, Preferences.Spoils t f → F f) :
    Ends F (fun _ => True) (Configuration.lookupConstant t key) := by
  obtain ⟨d, hd⟩ := hd
  rw [Configuration.lookupConstant, hd]
  cases hisKey : d.isKey with
  | false =>
    have hfault := h _ (.constant hkey hd hisKey)
    cases d with
    | list | mapping => exact .error hfault
    | null | truth | integer | decimal | text | other => cases hisKey
  | true =>
    cases d with
    | list | mapping => cases hisKey
    | null | truth | integer | decimal | text | other => exact .ok trivial

theorem ends_lookupTemplate {F : Fault → Prop} (hd : ∃ d, t.get? "template" = some d)
    (h : ∀ f, Preferences.Spoils t f → F f) :
    Ends F (fun template => t.get? "template" = some (.text template)) (Configuration.lookupTemplate t) := by
  obtain ⟨d, hd⟩ := hd
  rw [Configuration.lookupTemplate, hd]
  cases d with
  | text template => exact .ok rfl
  | null | truth | integer | decimal | list | mapping | other =>
    exact .error (h _ (.template hd nofun))

theorem asLookup?_eq_some {l : LookupTable} (h : Configuration.asLookup? t = some l)
    (hhelper : ∃ d, t.get? "helper" = some d) :
    ∃ helper, t.get? "helper" = some (.text helper) ∧ l = ⟨.ok helper,
      Configuration.lookupConstant t "base_constant", Configuration.lookupConstant t "revision_constant",
      Configuration.lookupTemplate t⟩ := by
  obtain ⟨d, hd⟩ := hhelper
  rw [Configuration.asLookup?, Configuration.lookupText?, hd] at h
  cases d with
  | text helper => exact ⟨helper, hd, (Option.some.inj h).symm⟩
  | null | truth | integer | decimal | list | mapping | other => cases h

/-- Complete tables stop a matching only by what is wrong with one of them. -/
theorem Project.ends_helperText (hp : p.lookups = tables.filterMap Configuration.asLookup?)
    (h : ∀ t ∈ tables, ∀ key ∈ Preferences.lookupKeys, ∃ d, t.get? key = some d) :
    Ends (p.TableFault tables table call name) (fun _ => True) (p.helperText table call name) := by
  unfold Project.helperText
  rw [hp]
  refine Ends.mono (P := fun found => ∀ text ∈ found, True) (Ends.firstSome fun l hl => ?_) fun _ _ => trivial
  obtain ⟨t, ht, hl⟩ := List.mem_filterMap.1 hl
  have hkeys := h t ht
  obtain ⟨helper, hhelper, rfl⟩ := asLookup?_eq_some hl (hkeys "helper" (by decide))
  refine Ends.bind (P := (· = helper)) (.ok rfl) fun own hown => ?_
  rw [hown]
  split
  · exact .ok nofun
  · next hcall =>
    have hcalled : call.callee?.map (·.text) = some helper := by simpa using hcall
    have hspoils (f : Fault) (hf : Preferences.Spoils t f) : p.TableFault tables table call name f :=
      .inr ⟨t, ht, helper, hhelper, hcalled, hf⟩
    have hconstant (constant : String) :
        Ends (p.TableFault tables table call name) (fun _ => True) (p.textConstant? table constant) :=
      ⟨fun _ => trivial, fun hf => .inl (.inl ⟨constant, hf⟩)⟩
    have hname : Ends (p.TableFault tables table call name) (fun _ => True) name.stringValue :=
      ⟨fun _ => trivial, fun hf => .inl (.inr hf)⟩
    refine (ends_lookupConstant (by decide) (hkeys "base_constant" (by decide)) hspoils).bind fun base _ => ?_
    refine (hconstant base).bind fun baseText _ => ?_
    refine (ends_lookupConstant (by decide) (hkeys "revision_constant" (by decide)) hspoils).bind
      fun revision _ => ?_
    refine (hconstant revision).bind fun revisionText _ => ?_
    split
    · refine hname.bind fun called _ => ?_
      refine (ends_lookupTemplate (hkeys "template" (by decide)) hspoils).bind fun template htemplate => ?_
      have hfill (base revision : String) : Ends (p.TableFault tables table call name) (fun _ => True)
          (Text.fill template [("base", base), ("revision", revision), ("name", called)]) :=
        ⟨fun _ => trivial, fun hf => hspoils _ (.filling htemplate hf)⟩
      exact (hfill _ _).bind fun _ _ => .ok fun _ _ => trivial
    · exact .ok fun _ _ => trivial

end Tables

/-! ### Templates -/

namespace Text

/-- Whether a piece is a character, or a field that a name alone stands for. -/
def Piece.isPlain (names : List String) : Piece → Bool
  | .character _ => true
  | .field f => names.contains (String.ofList f.name) && f.name.all (!continuesName ·) &&
    !f.name.all Layout.isDecimal && f.conversion.isNone && f.layout.isEmpty
  | .flaw _ => false

theorem laidOut_nil (text : List Char) : laidOut [] text = .ok text := by
  have hset : Layout.set ⟨' ', '<', none, false, false, none, none, none, 's'⟩ text = text := by
    simp [Layout.set, Layout.leftShare]
  exact congrArg Except.ok hset

theorem exists_named {fields : List (String × String)} {f : Field}
    (h : (Piece.field f).isPlain (fields.map (·.1)) = true) : ∃ text, named fields f.name = .ok text := by
  simp only [Piece.isPlain, Bool.and_eq_true, List.contains_iff_mem, List.mem_map] at h
  obtain ⟨⟨⟨⟨hname, hplain⟩, hletters⟩, -⟩, -⟩ := h
  have hwhole : f.name.takeWhile (!continuesName ·) = f.name :=
    List.takeWhile_eq_self_iff.2 (List.all_eq_true.1 hplain)
  have hnone : f.name.dropWhile (!continuesName ·) = [] :=
    List.dropWhile_eq_nil_iff.2 (List.all_eq_true.1 hplain)
  obtain ⟨field, hfield, hkey⟩ := hname
  have hsome : (fields.lookup (String.ofList f.name)).isSome = true :=
    List.lookup_isSome_iff.2 ⟨field, hfield, by simp [hkey]⟩
  obtain ⟨text, htext⟩ := Option.isSome_iff_exists.1 hsome
  rw [named, hwhole, hnone, if_neg (by simpa using hletters), htext]
  exact ⟨text.toList, rfl⟩

theorem exists_fillPieces {fields : List (String × String)} {layout : List Char → Except Fault (List Char)}
    (hlayout : layout [] = .ok []) {ps : List Piece}
    (h : ∀ piece ∈ ps, piece.isPlain (fields.map (·.1)) = true) :
    ∃ text, fillPieces fields layout ps = .ok text := by
  induction ps with
  | nil => exact ⟨[], rfl⟩
  | cons piece rest ih =>
    obtain ⟨hpiece, hrest⟩ := List.forall_mem_cons.1 h
    obtain ⟨others, hothers⟩ := ih hrest
    cases piece with
    | character c =>
      rw [fillPieces, hothers]
      exact ⟨c :: others, rfl⟩
    | flaw f => cases hpiece
    | field f =>
      obtain ⟨text, htext⟩ := exists_named hpiece
      simp only [Piece.isPlain, Bool.and_eq_true, Option.isNone_iff_eq_none, List.isEmpty_iff] at hpiece
      obtain ⟨⟨-, hconversion⟩, hempty⟩ := hpiece
      rw [fillPieces, htext, hconversion, hempty, hlayout, hothers]
      dsimp only [bind, Except.bind, converted]
      rw [laidOut_nil]
      exact ⟨text ++ others, rfl⟩

/-- A template of characters and plain names can be filled with all texts. -/
theorem exists_fill {template : String} {fields : List (String × String)}
    (h : ∀ piece ∈ pieces template.toList, piece.isPlain (fields.map (·.1)) = true) :
    ∃ text, fill template fields = .ok text := by
  have hpieces (layout : List Char → Except Fault (List Char)) (hlayout : layout [] = .ok []) :
      ∃ text, fillPieces fields layout (pieces template.toList) = .ok text := exists_fillPieces hlayout h
  obtain ⟨text, htext⟩ := hpieces (fun layout =>
    if layout.contains '\x7b' then fillWithin fields 1 layout else .ok layout) rfl
  refine ⟨String.ofList text, ?_⟩
  rw [fill, fillWithin, htext]
  rfl

end Text

/-! ### Accepted preferences -/

/-- A configuration that stops nobody: directories are found, and imports, categories and calls of helpers
meet no faults but those of the sources. -/
structure Configuration.Works (c : Configuration) : Prop where
  folders : ∀ root given, (∃ path, Catalog.placeOf root given c.sharedFolder = .ok path) ∧
    ∃ path, Catalog.placeOf root given c.ownFolder = .ok path
  modules : ∀ p : Project, p.aliases = c.aliases → ∀ importer specifier,
    Ends p.FileFault (fun _ => True) (p.module? importer specifier)
  categories : ∀ first second, ∃ split, Categories.ofCatalogs c.renames first second = .ok split
  tables : ∀ p : Project, p.lookups = c.lookups → ∀ table call name,
    Ends (p.SourceFault table name) (fun _ => True) (p.helperText table call name)

/-- A project that has the enumerations of a configuration, beside those of the platform. -/
def Project.SeesEnums (p : Project) (c : Configuration) : Prop :=
  p.enums = extendEnums platformEnums c.enums

/-- Options whose values are integers and texts are collected exactly if integers with labels can be
written. -/
theorem Choices.exists_collect_members_iff {options : List (Outcome (Value × Option String))}
    (h : ∀ option, .ok option ∈ options → option.1.IsMember) :
    (∃ choices, Choices.collect options = .ok choices) ↔
      ∀ n label, .ok (.integer n, some label) ∈ options → (Value.integer n).isWritable = true := by
  rw [Choices.exists_collect_iff]
  constructor
  · exact fun hkeyed n label hmem => hkeyed _ hmem rfl
  · rintro hwritable ⟨v, label⟩ hmem hlabel
    obtain ⟨label, rfl⟩ := Option.isSome_iff_exists.1 hlabel
    obtain ⟨n, rfl⟩ | ⟨t, rfl⟩ := h _ hmem
    · exact hwritable n label hmem
    · rfl

namespace Preferences

/-- Preferences whose values are of the kinds they are used as. -/
structure Typed (s : Preferences) : Prop where
  sharedFolder : ∃ path, s.get "vencord_plugins_dir" = .text path
  ownFolder : ∃ path, s.get "equicord_plugins_dir" = .text path
  aliases : ∀ e ∈ s.entriesOf "path_aliases", (∃ short, e.1 = .text short) ∧ ∃ path, e.2 = .text path
  renames : ∀ e ∈ s.entriesOf "plugin_renames", (∃ name, e.1 = .text name) ∧ ∃ other, e.2 = .text other
  fields : ∀ t ∈ s.lookupTables, ∀ key ∈ lookupKeys, ∃ text, t.get? key = some (.text text)
  templates : ∀ t ∈ s.lookupTables, ∀ template, t.get? "template" = some (.text template) →
    ∀ base revision name, ∃ text,
      Text.fill template [("base", base), ("revision", revision), ("name", name)] = .ok text

/-- What preferences can be used for. -/
structure Usability (s : Preferences) : Prop where
  checked : s.Checked
  /-- A directory is found exactly if it is a text. -/
  sharedFolder : (∀ root given, ∃ path,
      Catalog.placeOf root given (Configuration.ofPreferences s).sharedFolder = .ok path) ↔
    ∃ path, s.get "vencord_plugins_dir" = .text path
  ownFolder : (∀ root given, ∃ path,
      Catalog.placeOf root given (Configuration.ofPreferences s).ownFolder = .ok path) ↔
    ∃ path, s.get "equicord_plugins_dir" = .text path
  /-- Imports are resolved, as far as the files are readable, exactly if the aliases fit. -/
  modules : (∀ p : Project, p.aliases = (Configuration.ofPreferences s).aliases → ∀ importer specifier,
      Ends p.FileFault (fun _ => True) (p.module? importer specifier)) ↔
    AliasesFit (s.entriesOf "path_aliases")
  /-- Plugins are put into categories exactly if the renames fit. -/
  categories : (∀ first second, ∃ split,
      Categories.ofCatalogs (Configuration.ofPreferences s).renames first second = .ok split) ↔
    Categories.RenamesFit (s.entriesOf "plugin_renames")
  /-- Calls of helpers are matched, as far as the sources can be read and no table spoils it. -/
  tables : ∀ p : Project, p.lookups = (Configuration.ofPreferences s).lookups → ∀ table call name,
    Ends (p.TableFault s.lookupTables table call name) (fun _ => True) (p.helperText table call name)
  /-- Members of enumerations are integers and texts. -/
  members : ∀ p : Project, p.SeesEnums (Configuration.ofPreferences s) → ∀ enumeration member v,
    p.enumMember? enumeration member = some v → v.IsMember
  /-- Options that have such values are collected exactly if all integers with labels can be written. -/
  options : ∀ p : Project, p.SeesEnums (Configuration.ofPreferences s) →
    ∀ options : List (Outcome (Value × Option String)),
      (∀ option, .ok option ∈ options →
        ∃ enumeration member, p.enumMember? enumeration member = some option.1) →
      ((∃ choices, Choices.collect options = .ok choices) ↔
        ∀ n label, .ok (.integer n, some label) ∈ options → (Value.integer n).isWritable = true)
  /-- Values of the right kinds do for directories, imports, categories and tables. -/
  works : s.Typed → (Configuration.ofPreferences s).Works

theorem Checked.exists_get {s : Preferences} (h : s.Checked) :
    ∀ t ∈ s.lookupTables, ∀ key ∈ lookupKeys, ∃ d, t.get? key = some d := by
  intro t ht key hkey
  obtain ⟨entries, rfl, hkeys⟩ := h.tables t ht
  exact hkeys key hkey

theorem exists_text_of_all {entries : Preferences}
    (h : ∀ e ∈ entries, (∃ key, e.1 = .text key) ∧ ∃ t, e.2 = .text t) {key d : Datum}
    (hd : Datum.lookup? key entries = some d) : ∃ t, d = .text t := by
  obtain ⟨e, he, rfl⟩ := Option.map_eq_some_iff.1 hd
  exact (h e (List.mem_of_find?_eq_some he)).2

theorem Typed.aliasesFit {s : Preferences} (h : s.Typed) : AliasesFit (s.entriesOf "path_aliases") where
  keys e he := (h.aliases e he).1
  paths _ _ _ hd := exists_text_of_all h.aliases hd

theorem Typed.renamesFit {s : Preferences} (h : s.Typed) :
    Categories.RenamesFit (s.entriesOf "plugin_renames") := by
  intro name d hd
  have htext : ∃ t, d = .text t := by
    rcases Option.or_eq_some_iff.1 hd with hd | ⟨-, hd⟩
    · exact exists_text_of_all h.renames (Option.filter_eq_some_iff.1 hd).1
    · exact exists_text_of_all h.renames hd
  obtain ⟨t, rfl⟩ := htext
  rfl

theorem Typed.not_spoils {s : Preferences} (h : s.Typed) {t : Datum} (ht : t ∈ s.lookupTables) (f : Fault) :
    ¬Spoils t f := by
  have hfield (key : String) (hkey : key ∈ lookupKeys) (d : Datum) (hd : t.get? key = some d) :
      ∃ text, d = .text text := by
    obtain ⟨text, htext⟩ := h.fields t ht key hkey
    exact ⟨text, Option.some.inj (hd.symm.trans htext)⟩
  rintro (⟨hkey, hd, hfault⟩ | ⟨hd, hother⟩ | ⟨htemplate, hfill⟩)
  · have hlookup : ∀ key ∈ ["base_constant", "revision_constant"], key ∈ lookupKeys := by decide
    obtain ⟨text, rfl⟩ := hfield _ (hlookup _ hkey) _ hd
    cases hfault
  · obtain ⟨text, rfl⟩ := hfield _ (by decide) _ hd
    exact hother text rfl
  · obtain ⟨text, htext⟩ := h.templates t ht _ htemplate _ _ _
    rw [htext] at hfill
    cases hfill

/-- **What accepted preferences can be used for.** Whether directories are found, imports resolved and plugins
put into categories depends on values that no check looks at, and so do calls of helpers; where all these
values are of the right kinds, nothing is stopped by any of them. -/
theorem accepted_usability {s : Preferences} (h : s.check = .ok ()) : s.Usability := by
  have hchecked := check_eq_ok_iff.1 h
  have htables (p : Project) (hp : p.lookups = (Configuration.ofPreferences s).lookups)
      (table call name : Site) :
      Ends (p.TableFault s.lookupTables table call name) (fun _ => True) (p.helperText table call name) :=
    Project.ends_helperText (hp.trans (lookups_ofPreferences s)) hchecked.exists_get
  have hmembers (p : Project) (hp : p.SeesEnums (Configuration.ofPreferences s))
      (enumeration member : String) (v : Value) (hv : p.enumMember? enumeration member = some v) :
      v.IsMember :=
    EnumTable.All.enumMember (hp ▸ hchecked.enumMembers) hv
  constructor
  case checked => exact hchecked
  case sharedFolder => exact exists_placeOf_iff
  case ownFolder => exact exists_placeOf_iff
  case modules =>
    constructor
    · intro hmodules
      let p := (Configuration.ofPreferences s).project "" "" []
      exact Project.aliasesFit_of_modules (p := p) rfl rfl (hmodules p rfl)
    · exact fun hfit p hp => Project.ends_module hp hfit
  case categories => exact Categories.exists_ofCatalogs_iff
  case tables => exact htables
  case members => exact hmembers
  case options =>
    refine fun p hp options hvalues => Choices.exists_collect_members_iff fun option hoption => ?_
    obtain ⟨enumeration, member, hvalue⟩ := hvalues option hoption
    exact hmembers p hp enumeration member _ hvalue
  case works =>
    intro htyped
    constructor
    case folders =>
      exact fun root given => ⟨exists_placeOf_iff.2 htyped.sharedFolder root given,
        exists_placeOf_iff.2 htyped.ownFolder root given⟩
    case modules => exact fun p hp => Project.ends_module hp htyped.aliasesFit
    case categories => exact Categories.exists_ofCatalogs_iff.2 htyped.renamesFit
    case tables =>
      refine fun p hp table call name => (htables p hp table call name).weaken fun f hf => ?_
      rcases hf with hsource | ⟨t, ht, -, -, -, hspoils⟩
      · exact hsource
      · exact absurd hspoils (htyped.not_spoils ht f)

/-- One more alias than there is anyway. -/
def oneMoreAlias : Preferences :=
  standard.withOverrides [(.text "path_aliases", .mapping [(.text "@lib", .text "src/lib")])]

theorem texts_ofTexts (table : List (String × String)) :
    ∀ e ∈ ofTexts table, (∃ key, e.1 = .text key) ∧ ∃ t, e.2 = .text t := by
  intro e he
  obtain ⟨texts, -, rfl⟩ := List.mem_map.1 he
  exact ⟨⟨texts.1, rfl⟩, texts.2, rfl⟩

theorem typed_oneMoreAlias : oneMoreAlias.Typed where
  sharedFolder := ⟨"src/plugins", rfl⟩
  ownFolder := ⟨"src/equicordplugins", rfl⟩
  aliases := texts_ofTexts (standardAliases ++ [("@lib", "src/lib")])
  renames := texts_ofTexts standardRenames
  fields t ht key hkey := by
    obtain rfl : t = .mapping (ofTexts standardLookup) := List.mem_singleton.1 ht
    simp only [lookupKeys, List.mem_cons, List.not_mem_nil, or_false] at hkey
    rcases hkey with rfl | rfl | rfl | rfl <;> exact ⟨_, rfl⟩
  templates t ht template htemplate base revision name := by
    obtain rfl : t = .mapping (ofTexts standardLookup) := List.mem_singleton.1 ht
    cases htemplate
    refine Text.exists_fill ?_
    have hplain : ∀ piece ∈ Text.pieces (standardLookup[3].2).toList,
        piece.isPlain ["base", "revision", "name"] = true := by decide +kernel
    exact hplain

theorem one_more_alias_works : oneMoreAlias.check = .ok () ∧ oneMoreAlias.Typed ∧
    (Configuration.ofPreferences oneMoreAlias).Works := by
  have hcheck : oneMoreAlias.check = .ok () := rfl
  exact ⟨hcheck, typed_oneMoreAlias, (accepted_usability hcheck).works typed_oneMoreAlias⟩

/-- Standard preferences with another value under a key. -/
def standardWith (key : String) (d : Datum) : Preferences := standard.withOverrides [(.text key, d)]

def numberedFolder : Preferences := standardWith "vencord_plugins_dir" (.integer 5)

def numberedAlias : Preferences := standardWith "path_aliases" (.mapping [(.text "@x", .integer 5)])

def listedRename : Preferences := standardWith "plugin_renames" (.mapping [(.text "Tray", .list [.integer 1])])

/-- The standard lookup table with a template that asks for a text it is not given. -/
def strangeTable : Datum :=
  .mapping (Datum.place (.text "template") (.text "\x7bnope\x7d") (ofTexts standardLookup))

def strangeTemplate : Preferences := standardWith "lookup_tables" (.list [strangeTable])

theorem spoils_strangeTable : Spoils strangeTable (.missingField "nope") := by
  have hfill : Text.fill "\x7bnope\x7d" [("base", ""), ("revision", ""), ("name", "")] =
      .error (.missingField "nope") := rfl
  exact .filling rfl hfill

/-- Preferences are accepted with a number for a directory or for the path of an alias, with a list for a
new name, and with a template that cannot be filled. Whoever comes to use one of these is stopped by it. -/
theorem accepted_unusable :
    (numberedFolder.check = .ok () ∧ ¬numberedFolder.Typed ∧
      Catalog.placeOf "tree" none (Configuration.ofPreferences numberedFolder).sharedFolder =
        .error (.pathNotText "int")) ∧
    (numberedAlias.check = .ok () ∧ ¬numberedAlias.Typed ∧
      ((Configuration.ofPreferences numberedAlias).project "" "" []).module? "a.ts" "@x" =
        .error (.pathNotText "int")) ∧
    (listedRename.check = .ok () ∧ ¬listedRename.Typed ∧
      Categories.renamed? (Configuration.ofPreferences listedRename).renames "Tray" =
        .error (.notKey "list")) ∧
    (strangeTemplate.check = .ok () ∧ ¬strangeTemplate.Typed ∧
      strangeTable ∈ strangeTemplate.lookupTables ∧ Spoils strangeTable (.missingField "nope")) := by
  refine ⟨⟨rfl, fun h => ?_, rfl⟩, ⟨rfl, fun h => ?_, ?_⟩, ⟨rfl, fun h => ?_, ?_⟩,
    ⟨rfl, ?_, List.mem_singleton_self _, ?_⟩⟩
  · obtain ⟨path, hpath⟩ := h.sharedFolder
    cases hpath
  · have hentry : (Datum.text "@x", Datum.integer 5) ∈ numberedAlias.entriesOf "path_aliases" :=
      List.mem_append_right (ofTexts standardAliases) (List.mem_singleton_self _)
    obtain ⟨path, hpath⟩ := (h.aliases _ hentry).2
    cases hpath
  · have hentries : numberedAlias.entriesOf "path_aliases" =
        ofTexts standardAliases ++ [(.text "@x", .integer 5)] := rfl
    have hkeys : ∀ e ∈ numberedAlias.entriesOf "path_aliases", ∃ short, e.1 = .text short := by
      intro e he
      rw [hentries] at he
      rcases List.mem_append.1 he with he | he
      · exact (texts_ofTexts _ e he).1
      · exact ⟨"@x", by rw [List.mem_singleton.1 he]⟩
    exact Project.module?_eq_error (by decide +kernel) (Project.aliasTarget?_eq_error rfl hkeys rfl rfl) _
  · have hentry : (Datum.text "Tray", Datum.list [.integer 1]) ∈ listedRename.entriesOf "plugin_renames" :=
      List.mem_append_right (ofTexts standardRenames) (List.mem_singleton_self _)
    obtain ⟨other, hother⟩ := (h.renames _ hentry).2
    cases hother
  · rfl
  · exact fun h => h.not_spoils (List.mem_singleton_self _) _ spoils_strangeTable
  · exact spoils_strangeTable

end Preferences

end SettingsHarvest
