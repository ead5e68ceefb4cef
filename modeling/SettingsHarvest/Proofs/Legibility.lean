import SettingsHarvest.Configuration
import SettingsHarvest.Proofs.Assignment
import SettingsHarvest.Proofs.Escapes
import SettingsHarvest.Proofs.Faults
import SettingsHarvest.Proofs.Surroundings
import SettingsHarvest.Reference

/-! Sources that can be read.

Reading a source comes to no answer where a literal names a code point that does not exist. A site is
`Legible`, up to some faults, if no literal in or around it has another one. What a legible site refers
to is legible again: its parts, what its scopes declare, what its file imports and what a name stands
for. So each of these searches ends in something legible, or in one of the faults allowed. -/
namespace SettingsHarvest
open Syntax

variable {U : Node → Prop} {F : Fault → Prop}

/-! ### Literals -/

namespace Syntax

/-- A node that is read as a quoted text. -/
def Node.isQuoted (n : Node) : Bool :=
  n.hasKind .string || n.hasKind .templateString || n.role? == some .source

/-- The characters of a quoted text. -/
def Node.quotedBody (n : Node) : List Char := (n.text.toList.drop 1).dropLast

/-- One of the nodes `U`; if it is a quoted text, it can be read up to some faults. -/
structure Node.Legible (U : Node → Prop) (F : Fault → Prop) (n : Node) : Prop where
  known : U n
  readable : n.isQuoted = true → Ends F (fun _ => True) (Text.decode n.quotedBody)

/-- All in and around a site is of the nodes `U`, and every quoted text can be read up to some
faults. -/
def Site.Legible (U : Node → Prop) (F : Fault → Prop) (s : Site) : Prop :=
  s.Throughout (Node.Legible U F)

namespace Site

variable {s : Site}

theorem Legible.stringValue (h : s.Legible U F) (hquoted : s.node.isQuoted = true) :
    Ends F (fun _ => True) s.stringValue :=
  (h.here.self.readable hquoted).map fun _ _ => trivial

theorem isQuoted_of_hasKind_string (h : s.hasKind .string = true) : s.node.isQuoted = true := by
  simp [Node.isQuoted, show s.node.hasKind .string = true from h]

theorem isQuoted_of_hasKind_template (h : s.hasKind .templateString = true) :
    s.node.isQuoted = true := by
  simp [Node.isQuoted, show s.node.hasKind .templateString = true from h]

theorem isQuoted_of_source {source : Site} (h : s.part? .source = some source) :
    source.node.isQuoted = true := by
  obtain ⟨part, hpart, rfl⟩ := Option.map_eq_some_iff.1 h
  unfold Node.part? at hpart
  have hrole : part.role? = some .source := by simpa using List.find?_some hpart
  simp [Node.isQuoted, inside, hrole]

theorem Legible.memberKey? (h : s.Legible U F) : Ends F (fun _ => True) s.memberKey? := by
  unfold Site.memberKey?
  cases hkey : (s.part? .key).or (s.part? .name) with
  | none => exact .ok trivial
  | some key =>
    dsimp only
    split
    · exact .ok trivial
    · exact .ok trivial
    · exact .ok trivial
    · exact .ok trivial
    · next hkind =>
      have hlegible : key.Legible U F := by
        rcases Option.or_eq_some_iff.1 hkey with hpart | ⟨-, hpart⟩
        · exact h.part? hpart
        · exact h.part? hpart
      have hstring : key.hasKind .string = true := by simp [hasKind, Node.hasKind, ← hkind, kind?]
      exact (hlegible.stringValue (isQuoted_of_hasKind_string hstring)).map fun _ _ => trivial
    · exact .ok trivial

/-- Something legible, or nothing. -/
def LegibleFound (U : Node → Prop) (F : Fault → Prop) (found : Option Site) : Prop := ∀ t ∈ found, t.Legible U F

theorem Legible.propertyValue? (h : s.Legible U F) (key : String) :
    Ends F (LegibleFound U F) (s.propertyValue? key) := by
  unfold Site.propertyValue?
  split
  · refine Ends.firstSome fun pair hpair => ?_
    have hpair : pair.Legible U F := h.named (List.mem_filter.1 hpair).1
    refine hpair.memberKey?.bind fun found _ => ?_
    split
    · exact .ok fun value hvalue => hpair.part? hvalue
    · exact .ok nofun
  · exact .ok nofun

theorem Legible.accessParts (h : s.Legible U F) {base : Site} {key : String}
    (hparts : s.accessParts? = some (base, key)) : base.Legible U F := by
  unfold accessParts? at hparts
  split at hparts
  · next hobject _ =>
    cases hparts
    exact h.part? hobject
  · cases hparts

theorem Legible.memberValue? (h : s.Legible U F) (key : String) :
    Ends F (LegibleFound U F) (s.memberValue? key) := by
  refine (h.propertyValue? key).bind fun found hfound => ?_
  cases found with
  | some v => exact .ok hfound
  | none =>
    dsimp only
    split
    · exact .ok fun t ht => h.named (List.mem_of_find?_eq_some ht)
    · exact .ok nofun

end Site

/-! ### Declarations -/

/-- A declaration at a legible place, of something legible. -/
structure Declaration.Legible (U : Node → Prop) (F : Fault → Prop) (d : Declaration) : Prop where
  site : d.site.Legible U F
  value : ∀ v ∈ d.value?, v.Legible U F

/-- Names that stand for something legible. -/
def NameTable.Legible (U : Node → Prop) (F : Fault → Prop) (t : NameTable) : Prop :=
  ∀ e ∈ t, e.2.Legible U F

namespace NameTable

variable {t : NameTable}

theorem legible_nil : Legible U F [] := nofun

theorem Legible.lookup? (h : t.Legible U F) {name : String} {d : Declaration}
    (hd : t.lookup? name = some d) : d.Legible U F := by
  obtain ⟨e, he, rfl⟩ := Option.map_eq_some_iff.1 hd
  exact h e (List.mem_of_find?_eq_some he)

theorem Legible.offer (h : t.Legible U F) {name : String} {d : Declaration} (hd : d.Legible U F) :
    (t.offer name d).Legible U F := by
  unfold NameTable.offer
  split
  · exact h
  · exact List.forall_mem_append.2 ⟨h, List.forall_mem_singleton.2 hd⟩

theorem Legible.offerAll (h : t.Legible U F) {ds : List Declaration} (hds : ∀ d ∈ ds, d.Legible U F) :
    (t.offerAll ds).Legible U F := by
  induction ds generalizing t with
  | nil => exact h
  | cons d rest ih =>
    obtain ⟨hd, hrest⟩ := List.forall_mem_cons.1 hds
    exact ih (h.offer hd) hrest

end NameTable

namespace Site

variable {s : Site}

theorem Legible.plainVariables (h : s.Legible U F) : ∀ d ∈ s.plainVariables, d.Legible U F := by
  intro d hd
  obtain ⟨declarator, hdeclarator, hd⟩ := List.mem_filterMap.1 hd
  have hlegible := h.named hdeclarator
  split at hd
  · split at hd
    · split at hd
      · cases hd
        exact ⟨hlegible, fun v hv => hlegible.part? hv⟩
      · cases hd
    · cases hd
  · cases hd

theorem Legible.importsOf (h : s.Legible U F) (source : String) :
    ∀ d ∈ importsOf source s, d.Legible U F := by
  unfold Site.importsOf
  split
  · exact List.forall_mem_singleton.2 ⟨h, nofun⟩
  · split
    · exact List.forall_mem_singleton.2 ⟨h, nofun⟩
    · exact nofun
  · intro d hd
    obtain ⟨specifier, hspecifier, hd⟩ := List.mem_filterMap.1 hd
    split at hd
    · obtain ⟨name, -, rfl⟩ := Option.map_eq_some_iff.1 hd
      exact ⟨h.named hspecifier, nofun⟩
    · cases hd
  · exact nofun

/-- Declarations of legible things. -/
def AllLegible (U : Node → Prop) (F : Fault → Prop) (ds : List Declaration) : Prop := ∀ d ∈ ds, d.Legible U F

theorem Legible.imports (h : s.Legible U F) : Ends F (AllLegible U F) s.imports := by
  unfold Site.imports
  cases hsource : s.part? .source with
  | none => exact .ok nofun
  | some source =>
    have hlegible : source.Legible U F := h.part? hsource
    refine (hlegible.stringValue (isQuoted_of_source hsource)).bind fun path _ => .ok ?_
    intro d hd
    obtain ⟨clause, hclause, hd⟩ := List.mem_flatMap.1 hd
    obtain ⟨item, hitem, hd⟩ := List.mem_flatMap.1 hd
    have hclause : clause.Legible U F := h.named (List.mem_filter.1 hclause).1
    exact Legible.importsOf (hclause.named hitem) path d hd

theorem Legible.byName (h : s.Legible U F) {binding : Binding} (hbinding : ∀ v, binding ≠ .variable v) :
    AllLegible U F (s.byName binding) := by
  unfold Site.byName
  split
  · refine List.forall_mem_singleton.2 ⟨h, fun v hv => ?_⟩
    unfold Declaration.value? at hv
    split at hv
    · next hvariable => exact absurd hvariable (hbinding _)
    · cases hv
      exact h
    · cases hv
  · exact nofun

theorem Legible.statementDeclarations (h : s.Legible U F) :
    Ends F (AllLegible U F) s.statementDeclarations := by
  unfold Site.statementDeclarations
  cases hdeclaring : s.declaringStatement? with
  | none => exact .ok nofun
  | some t =>
    have ht : t.Legible U F := h.declaringStatement? hdeclaring
    dsimp only
    split
    · exact .ok ht.plainVariables
    · exact .ok ht.plainVariables
    · exact .ok (ht.byName nofun)
    · exact .ok (ht.byName nofun)
    · exact .ok (ht.byName nofun)
    · exact .ok (ht.byName nofun)
    · exact .ok (ht.byName nofun)
    · exact ht.imports
    · exact .ok nofun

theorem Legible.declarations (h : s.Legible U F) : Ends F (NameTable.Legible U F) s.declarations := by
  have hstatements : Ends F (fun groups => ∀ ds ∈ groups, AllLegible U F ds)
      (s.named.mapM Site.statementDeclarations) := by
    refine Ends.mapM fun t ht => ?_
    exact Legible.statementDeclarations (h.named ht)
  refine hstatements.bind fun groups hgroups => .ok ?_
  refine NameTable.legible_nil.offerAll fun d hd => ?_
  obtain ⟨group, hgroup, hd⟩ := List.mem_flatten.1 hd
  exact hgroups group hgroup d hd

theorem legible_clauseExports {declared exported : NameTable} (hdeclared : declared.Legible U F)
    (hexported : exported.Legible U F) : (clauseExports declared exported s).Legible U F := by
  refine List.foldlRecOn _ _ hexported fun t ht clause _ => ?_
  refine List.foldlRecOn _ _ ht fun t ht specifier _ => ?_
  split
  · exact ht
  · split
    · next hd => exact ht.offer (hdeclared.lookup? hd)
    · exact ht

theorem Legible.statementExports (h : s.Legible U F) {declared exported : NameTable}
    (hdeclared : declared.Legible U F) (hexported : exported.Legible U F) :
    Ends F (NameTable.Legible U F) (statementExports declared exported s) := by
  unfold Site.statementExports
  split
  · next hinner =>
    exact (Legible.statementDeclarations (h.part? hinner)).bind fun ds hds =>
      .ok (hexported.offerAll hds)
  · split
    · next hvalue =>
      refine .ok (forall_mem_assign ?_ hexported)
      exact ⟨h, fun v hv => by cases hv; exact h.part? hvalue⟩
    · exact .ok (legible_clauseExports hdeclared hexported)

theorem Legible.exports (h : s.Legible U F) : Ends F (NameTable.Legible U F) s.exports := by
  refine h.declarations.bind fun declared hdeclared => Ends.foldlM nofun fun t ht exported => ?_
  exact Legible.statementExports (h.named (List.mem_filter.1 ht).1) hdeclared

theorem Legible.declaredBy (h : s.Legible U F) (name : String) :
    Ends F (fun found => ∀ d ∈ found, d.Legible U F) (s.declaredBy name) := by
  unfold Site.declaredBy
  split
  · refine .ok ?_
    rintro d ⟨⟩
    exact ⟨h, nofun⟩
  · split
    · exact h.declarations.bind fun t ht => .ok fun d hd => ht.lookup? hd
    · exact .ok nofun

theorem Legible.scopedDeclaration? (h : s.Legible U F) (name : String) :
    Ends F (fun found => ∀ d ∈ found, d.Legible U F) (s.scopedDeclaration? name) :=
  Ends.firstSome fun t ht => Legible.declaredBy (h.enclosing t ht) name

end Site
end Syntax

/-! ### Projects -/

/-- A project of legible files, in which imports meet none but some faults. -/
structure Project.Legible (U : Node → Prop) (F : Fault → Prop) (p : Project) : Prop where
  aliases : Ends F (fun aliases => ∀ a ∈ aliases, Ends F (fun _ => True) a.2) p.aliases
  closed : ∀ path ∈ p.closed, F (.closedFile path)
  files : ∀ f ∈ p.known ++ p.readable, f.program.get.Throughout (Node.Legible U F)

namespace Project

variable {p : Project} {s : Site}

theorem mem_of_file {path : String} {file : SourceFile} (h : p.file? path = some file) :
    file ∈ p.known ++ p.readable := by
  rcases Option.or_eq_some_iff.1 h with hknown | ⟨-, hreadable⟩
  · exact List.mem_append_left _ (List.mem_of_find?_eq_some hknown)
  · exact List.mem_append_right _ (List.mem_of_find?_eq_some hreadable)

theorem Legible.top (h : p.Legible U F) {path : String} {f : SourceFile} (hf : p.file? path = some f) :
    f.top.Legible U F := ⟨h.files f (mem_of_file hf), nofun⟩

theorem Legible.aliasTarget? (h : p.Legible U F) (specifier : String) :
    Ends F (fun _ => True) (p.aliasTarget? specifier) := by
  refine h.aliases.bind fun aliases haliases => ?_
  dsimp only
  split
  · exact .ok trivial
  · next hfound =>
    have hmem := List.mem_mergeSort.1 (List.mem_of_find?_eq_some hfound)
    exact (haliases _ hmem).bind fun _ _ => .ok trivial

/-- A file that an import leads to. -/
theorem Legible.opened (h : p.Legible U F) {base? : Option String} {f : SourceFile}
    (hfound : (base?.bind fun base => (moduleCandidates (p.place base)).findSome? p.file?) = some f) :
    Ends F (fun found => ∀ f ∈ found, f.top.Legible U F) (do
      if p.closed.contains f.path then throw (.closedFile f.path)
      let _ ← f.exports
      return some f) := by
  obtain ⟨base, -, hfound⟩ := Option.bind_eq_some_iff.1 hfound
  obtain ⟨path, -, hfile⟩ := List.exists_of_findSome?_eq_some hfound
  have htop := h.top hfile
  split
  · next hclosed => exact .error (h.closed _ (by simpa using hclosed))
  · refine htop.exports.bind fun _ _ => .ok ?_
    rintro f' ⟨⟩
    exact htop

theorem Legible.module? (h : p.Legible U F) (importer specifier : String) :
    Ends F (fun found => ∀ f ∈ found, f.top.Legible U F) (p.module? importer specifier) := by
  unfold Project.module?
  split
  · rw [pure_bind]
    dsimp only
    split
    · exact .ok nofun
    · next hfound => exact h.opened hfound
  · refine (h.aliasTarget? specifier).bind fun base? _ => ?_
    dsimp only
    split
    · exact .ok nofun
    · next hfound => exact h.opened hfound

theorem Legible.followImport (h : p.Legible U F) (file : String) {d : Declaration} (hd : d.Legible U F) :
    Ends F (Declaration.Legible U F) (p.followImport file d) := by
  unfold Project.followImport
  split
  · next source name _ =>
    refine (h.module? file source).bind fun target htarget => ?_
    cases target with
    | none => exact .ok hd
    | some f =>
      refine (htarget f rfl).exports.bind fun exported hexported => ?_
      cases hfound : exported.lookup? name with
      | none => exact .ok hd
      | some d' => exact .ok (hexported.lookup? hfound)
  · exact .ok hd

theorem Legible.declaration? (h : p.Legible U F) (hs : s.Legible U F) :
    Ends F (fun found => ∀ d ∈ found, d.Legible U F) (p.declaration? s) := by
  refine (hs.scopedDeclaration? s.text).bind fun found hfound => ?_
  cases found with
  | none => exact .ok nofun
  | some d =>
    refine (h.followImport s.file (hfound d rfl)).bind fun d' hd' => .ok ?_
    rintro d'' ⟨⟩
    exact hd'

theorem legible_initializerBySpelling (hs : s.Legible U F) :
    Site.LegibleFound U F (initializerBySpelling? s) := by
  intro v hv
  obtain ⟨declarator, hdeclarator, hv⟩ := List.exists_of_findSome?_eq_some hv
  rw [Site.declaratorsOf_eq] at hdeclarator
  have hprogram : s.program.Legible U F := hs.program
  exact (hprogram.walk declarator (List.mem_filter.1 hdeclarator).1).part? hv

/-- What a name stands for is legible. -/
theorem Legible.initializer? (h : p.Legible U F) (hs : s.Legible U F) :
    Ends F (Site.LegibleFound U F) (p.initializer? s) := by
  refine (h.declaration? hs).bind fun found hfound => ?_
  cases found with
  | some d => exact .ok (hfound d rfl).value
  | none => exact .ok (legible_initializerBySpelling hs)

/-! ### Chains -/

/-- Where following references ends: in a fault allowed, or in none but that they do not end. -/
def OrEndless (F : Fault → Prop) (f : Fault) : Prop := F f ∨ f = .endlessReference

theorem Legible.chain (h : p.Legible U F) {object? : Site → Attempt (Option Site)}
    (hobject : ∀ t, t.Legible U F → Ends (OrEndless F) (Site.LegibleFound U F) (object? t))
    {steps : Nat} (hs : s.Legible U F) :
    Ends (OrEndless F) (Site.LegibleFound U F) (p.chain object? steps s) := by
  induction steps generalizing s with
  | zero => exact .ok nofun
  | succ steps ih =>
    unfold Project.chain
    split
    · refine ((h.initializer? hs).weaken fun _ => .inl).bind fun next hnext => ?_
      cases next with
      | none => exact .ok nofun
      | some next => exact ih (hnext next rfl).unwrap
    · split
      · split
        · exact .ok nofun
        · next hparts =>
          refine (hobject _ (hs.accessParts hparts)).bind fun object hobject => ?_
          cases object with
          | none => exact .ok nofun
          | some object =>
            have hobject : object.Legible U F := hobject object rfl
            refine ((hobject.propertyValue? _).weaken fun _ => .inl).bind fun next hnext => ?_
            cases next with
            | none => exact .ok nofun
            | some next => exact ih (hnext next rfl).unwrap
      · refine .ok ?_
        rintro _ ⟨⟩
        exact hs

/-- What references lead to is legible. -/
theorem Legible.denotedWithin (h : p.Legible U F) (depth : Nat) (hs : s.Legible U F) :
    Ends (OrEndless F) (Site.LegibleFound U F) (p.denotedWithin depth s) := by
  induction depth generalizing s with
  | zero => exact .error (.inr rfl)
  | succ depth ih =>
    refine h.chain (fun t ht => ?_) hs.unwrap
    refine (ih ht).map fun found hfound => ?_
    exact fun t ht => hfound t (Option.filter_eq_some_iff.1 ht).1

/-! ### Configured projects -/

/-- A project with what preferences say; which files it has read, or could read, is left open. -/
structure ConfiguredBy (p : Project) (preferences : Preferences) : Prop where
  aliases : p.aliases = (Configuration.ofPreferences preferences).aliases
  enums : p.enums =
    extendEnums platformEnums (Configuration.ofPreferences preferences).enums
  lookups : p.lookups = (Configuration.ofPreferences preferences).lookups
  closed : p.closed = []

theorem configuredBy_project (preferences : Preferences) (workingDirectory root : String)
    (readable : List SourceFile) :
    ((Configuration.ofPreferences preferences).project workingDirectory root readable).ConfiguredBy
      preferences := ⟨rfl, rfl, rfl, rfl⟩

/-- The aliases of preferences, as they are written there. -/
def aliasEntries (preferences : Preferences) : Preferences :=
  (preferences.get "path_aliases").entries?.getD []

/-- Aliases that are no texts are the only faults of preferences that imports can meet. -/
theorem ConfiguredBy.ends_aliases {preferences : Preferences} (h : p.ConfiguredBy preferences)
    (hkey : ∀ e ∈ aliasEntries preferences, e.1.text? = none → F (.noLength e.1.kind))
    (hpath : ∀ e ∈ aliasEntries preferences, e.2.text? = none → F (.pathNotText e.2.kind)) :
    Ends F (fun aliases => ∀ a ∈ aliases, Ends F (fun _ => True) a.2) p.aliases := by
  rw [h.aliases]
  refine Ends.mapM fun entry hentry => ?_
  have htarget : Ends F (fun _ => True) (Configuration.asPath entry.2) := by
    have hpath := hpath entry hentry
    revert hpath
    cases entry.2 with
    | text s => exact fun _ => .ok trivial
    | null | truth | integer | decimal | list | mapping | other => exact fun hpath => .error (hpath rfl)
  have hkey := hkey entry hentry
  obtain ⟨key, path⟩ := entry
  cases key with
  | text s => exact .ok htarget
  | null | truth | integer | decimal | list | mapping | other => exact .error (hkey rfl)

end Project
end SettingsHarvest
