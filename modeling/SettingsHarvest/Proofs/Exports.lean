import SettingsHarvest.Proofs.Assignment
import SettingsHarvest.Proofs.LexicalScope
import SettingsHarvest.Proofs.Parallel

/-! Exports of programs.

By the rules of the language an export statement exports the names it declares under themselves, or what it
declares or the value it gives under `default`, or what it lists under the names given there; a list of
another file's names passes them on and exports nothing of the program itself (`Site.exported`). The table of
exports holds what its statements are read as (`gathers_exports`), and that is what they export where the
program keeps to plain forms (`Site.ExportsPlainly`): everything it exports is declared by a plain name, no
declaration is the default, no list of another file's names repeats a plain name of its own, and no name is
quoted. In all other programs the table is wrong (`exports_right_iff`). -/
namespace SettingsHarvest
open Syntax

namespace Syntax

/-! ### What a program exports -/

/-- Where an exported name comes from. -/
inductive Origin where
  /-- The binding of a name in the program. -/
  | binding (name : String)
  /-- The value of a statement. -/
  | value (statement : Site)
  | elsewhere

inductive ExportForm where
  | declared
  | default
  | listed
  | passedOn

structure Export where
  form : ExportForm
  name : String
  origin : Origin

namespace Site

def exportStatements (program : Site) : List Site := program.named.filter (·.hasKind .exportStatement)

/-- Whether an export statement has the word `default`. -/
def isDefaultExport (statement : Site) : Bool :=
  statement.node.parts.any fun part => part.kind?.isNone && part.text == "default"

def declaredExports (statement : Site) : List Export :=
  statement.statementBindings.map fun binding =>
    if statement.isDefaultExport then ⟨.default, "default", .binding binding.2⟩
    else ⟨.declared, binding.2, .binding binding.2⟩

def valueExports (statement : Site) : List Export :=
  if (statement.part? .declaration).isNone then
    (statement.part? .value).toList.map fun _ => ⟨.default, "default", .value statement⟩
  else []

/-- The name that a statement gives to all the exports of another file together. -/
def starExports (statement : Site) : List Export :=
  (statement.named.filter (·.hasKind .namespaceExport)).flatMap fun star =>
    (star.named.getLast?.bind fun name => (memberName name).toOption).toList.map (⟨.passedOn, ·, .elsewhere⟩)

/-- The entries of an export list. -/
def specifiers (statement : Site) : List Site :=
  if (statement.part? .declaration).isNone && (statement.part? .value).isNone then
    (statement.named.filter (·.hasKind .exportClause)).flatMap named
  else []

/-- The node with the name that an entry is exported under, given its own name. -/
def namedAs (specifier name : Site) : Site := (specifier.part? .rename).getD name

/-- The name that an entry is exported under; a quoted one denotes a text. -/
def exportName? (specifier name : Site) : Option String := (memberName (specifier.namedAs name)).toOption

/-- Whether a block binds a name, in any form. -/
def binds (block : Site) (name : String) : Bool := block.blockBindings.any (·.2 == name)

def specifierExports (program statement specifier : Site) : List Export :=
  match specifier.part? .name with
  | none => []
  | some name => (specifier.exportName? name).toList.flatMap fun exported =>
    if (statement.part? .source).isSome then [⟨.passedOn, exported, .elsewhere⟩]
    else if program.binds name.text then [⟨.listed, exported, .binding name.text⟩]
    else []

/-- All that the export statements of a program export by name, in their order. -/
def exported (program : Site) : List Export :=
  program.exportStatements.flatMap fun statement =>
    statement.declaredExports ++ (statement.valueExports ++ (statement.starExports ++
      statement.specifiers.flatMap (program.specifierExports statement)))

/-! ### What declarations stand for -/

/-- A statement of a block has a declaration for the tables of names. -/
def Declares (block : Site) (d : Declaration) : Prop :=
  ∃ statement ∈ block.named, ∃ ds, statement.statementDeclarations = .ok ds ∧ d ∈ ds

/-- A declaration is that of a binding of the program, or of a default value. -/
def StandsFor (program : Site) (d : Declaration) : Origin → Prop
  | .binding name => d.name = name ∧ program.Declares d
  | .value statement => d = ⟨"default", statement, .variable (statement.part? .value)⟩
  | .elsewhere => False

end Site

/-! ### Tables -/

namespace NameTable

theorem lookup_assign (t : NameTable) (name key : String) (d : Declaration) :
    lookup? (assign name d t) key = if name = key then some d else t.lookup? key := by
  induction t with
  | nil => by_cases hkey : name = key <;> simp [assign, lookup?, hkey]
  | cons e rest ih =>
    obtain ⟨k, d'⟩ := e
    rw [assign]
    by_cases hk : k = name
    · subst hk
      by_cases hkey : k = key <;> simp [lookup?, hkey]
    · rw [if_neg (by simpa using hk)]
      by_cases hkey : k = key
      · subst hkey
        simp [lookup?, Ne.symm hk]
      · simpa [lookup?, List.find?_cons, hkey] using ih

/-- A table that holds entries for the names that were read, and none but those that were read. -/
structure Gathers (read : String → Declaration → Prop) (before after : NameTable) : Prop where
  sound : ∀ name d, after.lookup? name = some d → before.lookup? name = some d ∨ read name d
  kept : ∀ name, before.lookup? name ≠ none → after.lookup? name ≠ none
  complete : ∀ name d, read name d → after.lookup? name ≠ none

namespace Gathers

variable {t t' t'' : NameTable} {read read' : String → Declaration → Prop}

theorem nothing (h : ∀ name d, ¬read name d) : Gathers read t t where
  sound _ _ := .inl
  kept _ := id
  complete name d hread := absurd hread (h name d)

theorem trans (h : Gathers read t t') (h' : Gathers read' t' t'') :
    Gathers (fun name d => read name d ∨ read' name d) t t'' where
  sound name d hd := (h'.sound name d hd).elim
    (fun hd => (h.sound name d hd).imp_right .inl) fun hread => .inr (.inr hread)
  kept name hname := h'.kept name (h.kept name hname)
  complete name d hread := hread.elim (fun hread => h'.kept name (h.complete name d hread))
    (h'.complete name d)

theorem congr (h : Gathers read t t') (hread : ∀ name d, read name d ↔ read' name d) :
    Gathers read' t t' := by
  obtain rfl : read = read' := funext fun name => funext fun d => propext (hread name d)
  exact h

theorem offer (t : NameTable) (key : String) (entry : Declaration) :
    Gathers (fun name d => key = name ∧ entry = d) t (t.offer key entry) where
  sound name d hd := by
    rw [lookup_offer, Option.or_eq_some_iff] at hd
    refine hd.imp_right fun ⟨_, hd⟩ => ?_
    split at hd
    · next hkey => exact ⟨hkey, Option.some.inj hd⟩
    · cases hd
  kept name hname := by
    rw [lookup_offer]
    simp [hname]
  complete := by
    rintro name d ⟨rfl, rfl⟩
    rw [lookup_offer, if_pos rfl]
    simp

theorem assign (t : NameTable) (key : String) (entry : Declaration) :
    Gathers (fun name d => key = name ∧ entry = d) t (assign key entry t) where
  sound name d hd := by
    rw [lookup_assign] at hd
    split at hd
    · next hkey => exact .inr ⟨hkey, Option.some.inj hd⟩
    · exact .inl hd
  kept name hname := by
    rw [lookup_assign]
    split
    · nofun
    · exact hname
  complete := by
    rintro name d ⟨rfl, rfl⟩
    rw [lookup_assign, if_pos rfl]
    nofun

theorem foldl {α : Type} {step : NameTable → α → NameTable} {reads : α → String → Declaration → Prop}
    {items : List α} (h : ∀ a ∈ items, ∀ t, Gathers (reads a) t (step t a)) (t : NameTable) :
    Gathers (fun name d => ∃ a ∈ items, reads a name d) t (items.foldl step t) := by
  induction items generalizing t with
  | nil => exact .nothing (by simp)
  | cons a rest ih =>
    obtain ⟨ha, hrest⟩ := List.forall_mem_cons.1 h
    exact ((ha t).trans (ih hrest (step t a))).congr (by simp)

theorem foldlM {α : Type} {step : NameTable → α → Attempt NameTable}
    {reads : α → String → Declaration → Prop} {items : List α}
    (h : ∀ a ∈ items, ∀ t t', step t a = .ok t' → Gathers (reads a) t t') {t t' : NameTable}
    (hfold : items.foldlM step t = .ok t') :
    Gathers (fun name d => ∃ a ∈ items, reads a name d) t t' := by
  induction items generalizing t with
  | nil =>
    cases pure_eq_ok.1 hfold
    exact .nothing (by simp)
  | cons a rest ih =>
    obtain ⟨ha, hrest⟩ := List.forall_mem_cons.1 h
    rw [List.foldlM_cons] at hfold
    obtain ⟨next, hnext, hfold⟩ := bind_eq_ok.1 hfold
    exact ((ha t next hnext).trans (ih hrest hfold)).congr (by simp)

end Gathers
end NameTable

namespace Site

variable {program statement inner specifier name : Site} {declared table : NameTable} {n : String}
  {d : Declaration}

/-- What the table of exports reads of a statement. -/
inductive Reads (declared : NameTable) (statement : Site) : String → Declaration → Prop where
  | declared {inner : Site} {ds : List Declaration} {d : Declaration}
      (inside : statement.part? .declaration = some inner)
      (declarations : inner.statementDeclarations = .ok ds) (mem : d ∈ ds) :
      Reads declared statement d.name d
  | value {v : Site} (noDeclaration : statement.part? .declaration = none)
      (isValue : statement.part? .value = some v) :
      Reads declared statement "default" ⟨"default", statement, .variable (some v)⟩
  | listed {specifier name : Site} {d : Declaration} (mem : specifier ∈ statement.specifiers)
      (ownName : specifier.part? .name = some name) (found : declared.lookup? name.text = some d) :
      Reads declared statement (specifier.namedAs name).text d

theorem specifiers_of_list (hdeclaration : statement.part? .declaration = none)
    (hvalue : statement.part? .value = none) :
    statement.specifiers = (statement.named.filter (·.hasKind .exportClause)).flatMap named := by
  rw [specifiers, hdeclaration, hvalue]
  rfl

theorem isList_of_mem (h : specifier ∈ statement.specifiers) :
    statement.part? .declaration = none ∧ statement.part? .value = none := by
  unfold specifiers at h
  split at h
  · next hnone => simpa using hnone
  · cases h

theorem gathers_clauseExports (declared t : NameTable) (hdeclaration : statement.part? .declaration = none)
    (hvalue : statement.part? .value = none) :
    NameTable.Gathers (Reads declared statement) t (clauseExports declared t statement) := by
  have hall : NameTable.Gathers (fun n d => ∃ clause ∈ statement.named.filter (·.hasKind .exportClause),
      ∃ specifier ∈ clause.named, ∃ name, specifier.part? .name = some name ∧
        declared.lookup? name.text = some d ∧ (specifier.namedAs name).text = n)
      t (clauseExports declared t statement) := by
    refine NameTable.Gathers.foldl (fun clause _ t => ?_) t
    refine NameTable.Gathers.foldl (fun specifier _ t => ?_) t
    cases hname : specifier.part? .name with
    | none => exact .nothing (by simp)
    | some name =>
      dsimp only
      cases hfound : declared.lookup? name.text with
      | none => exact .nothing (by simp [hfound])
      | some entry =>
        refine (NameTable.Gathers.offer t _ entry).congr fun n d => ?_
        simp [hfound, namedAs, and_comm]
  refine hall.congr fun n d => ?_
  constructor
  · rintro ⟨clause, hclause, specifier, hmem, name, hname, hfound, rfl⟩
    refine .listed ?_ hname hfound
    rw [specifiers_of_list hdeclaration hvalue]
    exact List.mem_flatMap.2 ⟨clause, hclause, hmem⟩
  · intro hreads
    cases hreads with
    | declared inside => cases hdeclaration.symm.trans inside
    | value _ isValue => cases hvalue.symm.trans isValue
    | listed mem ownName found =>
      rw [specifiers_of_list hdeclaration hvalue] at mem
      obtain ⟨clause, hclause, hmem⟩ := List.mem_flatMap.1 mem
      exact ⟨clause, hclause, _, hmem, _, ownName, found, rfl⟩

theorem gathers_statementExports {t t' : NameTable} (h : statementExports declared t statement = .ok t') :
    NameTable.Gathers (Reads declared statement) t t' := by
  unfold statementExports at h
  split at h
  · next inner hinner =>
    obtain ⟨ds, hds, h⟩ := bind_eq_ok.1 h
    cases pure_eq_ok.1 h
    refine (NameTable.Gathers.foldl (fun d _ t => .offer t d.name d) t).congr fun n d => ?_
    constructor
    · rintro ⟨d, hd, rfl, rfl⟩
      exact .declared hinner hds hd
    · intro hreads
      cases hreads with
      | declared inside declarations mem =>
        cases hinner.symm.trans inside
        cases hds.symm.trans declarations
        exact ⟨d, mem, rfl, rfl⟩
      | value noDeclaration => cases hinner.symm.trans noDeclaration
      | listed mem => cases hinner.symm.trans (isList_of_mem mem).1
  · next hdeclaration =>
    split at h
    · next v hv =>
      cases h
      refine (NameTable.Gathers.assign t "default" _).congr fun n d => ?_
      constructor
      · rintro ⟨rfl, rfl⟩
        exact .value hdeclaration hv
      · intro hreads
        cases hreads with
        | declared inside => cases hdeclaration.symm.trans inside
        | value _ isValue =>
          cases hv.symm.trans isValue
          exact ⟨rfl, rfl⟩
        | listed mem => cases hv.symm.trans (isList_of_mem mem).2
    · next hvalue =>
      cases h
      exact gathers_clauseExports declared t hdeclaration hvalue

theorem gathers_exports (h : program.exports = .ok table) : ∃ declared, program.declarations = .ok declared ∧
    NameTable.Gathers (fun n d => ∃ statement ∈ program.exportStatements, Reads declared statement n d)
      [] table := by
  obtain ⟨declared, hdeclared, h⟩ := bind_eq_ok.1 h
  exact ⟨declared, hdeclared, .foldlM (fun statement _ t t' hstep => gathers_statementExports hstep) h⟩

/-! ### Declarations in their statements -/

theorem declaringInRole_eq (above parts : List Node) :
    declaringInRole above parts = (parts.find? (·.role? == some .declaration)).bind (declaring above) := by
  induction parts with
  | nil => rfl
  | cons part rest ih =>
    rw [declaringInRole, List.find?_cons]
    cases part.role? == some .declaration with
    | true => rfl
    | false => exact ih

theorem declaringFirst_of_no_declaration (above : List Node) {parts : List Node}
    (h : parts.any (·.kind?.any Kind.isDeclaration) = false) : declaringFirst above parts = none := by
  induction parts with
  | nil => rfl
  | cons part rest ih =>
    obtain ⟨hpart, hrest⟩ := Bool.or_eq_false_iff.1 h
    rw [declaringFirst, if_neg (ne_true_of_eq_false hpart)]
    exact ih hrest

section NoDeclaration

variable {role : Option Role} {parts : List Node}
  (hnode : statement.node = .tree .exportStatement role parts)
  (hrole : parts.any (·.role? == some .declaration) = false)
  (hkind : parts.any (·.kind?.any Kind.isDeclaration) = false)

include hnode hrole hkind

/-- An export statement in which there is no declaration declares nothing. -/
theorem declaringStatement_of_no_declaration : statement.declaringStatement? = none := by
  unfold declaringStatement?
  rw [hnode, declaring]
  dsimp only
  rw [hrole]
  exact congrArg (Option.map _) (declaringFirst_of_no_declaration _ hkind)

theorem statementDeclarations_of_no_declaration : statement.statementDeclarations = .ok [] := by
  rw [statementDeclarations, declaringStatement_of_no_declaration hnode hrole hkind]

theorem statementBindings_of_no_declaration :
    statement.statementBindings = (statement.bare.flatMap bare).flatMap untabledBindings := by
  rw [statementBindings, declaringStatement_of_no_declaration hnode hrole hkind]

end NoDeclaration

/-- An export statement declares what its declaration declares. -/
theorem statementDeclarations_of_declaration (hkind : statement.hasKind .exportStatement = true)
    (hinner : statement.part? .declaration = some inner) :
    statement.statementDeclarations = inner.statementDeclarations := by
  have hdeclaring : statement.declaringStatement? = inner.declaringStatement? := by
    obtain ⟨file, above, node⟩ := statement
    obtain ⟨part, hpart, rfl⟩ := Option.map_eq_some_iff.1 hinner
    cases node with
    | token | leaf => cases hpart
    | tree k r parts =>
      have hk : k = .exportStatement := by simpa [hasKind, Node.hasKind, Node.kind?] using hkind
      subst hk
      have hfind : parts.find? (·.role? == some .declaration) = some part := hpart
      have hrole := List.find?_some hfind
      have hany : parts.any (·.role? == some .declaration) = true :=
        List.any_eq_true.2 ⟨part, List.mem_of_find?_eq_some hfind, hrole⟩
      unfold declaringStatement?
      rw [declaring]
      dsimp only
      rw [hany, declaringInRole_eq, hfind]
      rfl
  unfold statementDeclarations
  rw [hdeclaring]

theorem exists_declarations_iff : (∃ declared, program.declarations = .ok declared) ↔
    ∀ statement ∈ program.named, ∃ ds, statement.statementDeclarations = .ok ds := by
  rw [← exists_mapM_iff]
  constructor
  · rintro ⟨declared, h⟩
    obtain ⟨tables, htables, -⟩ := bind_eq_ok.1 h
    exact ⟨tables, htables⟩
  · rintro ⟨tables, htables⟩
    exact ⟨_, bind_eq_ok.2 ⟨tables, htables, rfl⟩⟩

/-- Where the declarations of a program can be read, so can its exports. -/
theorem exists_exports (h : program.declarations = .ok declared) : ∃ table, program.exports = .ok table := by
  have hstep : ∀ statement ∈ program.exportStatements, ∀ t,
      ∃ t', statementExports declared t statement = .ok t' := by
    intro statement hstatement t
    obtain ⟨hmem, hkind⟩ := List.mem_filter.1 hstatement
    unfold statementExports
    split
    · next inner hinner =>
      obtain ⟨ds, hds⟩ := exists_declarations_iff.1 ⟨declared, h⟩ statement hmem
      rw [statementDeclarations_of_declaration hkind hinner] at hds
      exact ⟨_, by rw [hds]; rfl⟩
    · split
      · exact ⟨_, rfl⟩
      · exact ⟨_, rfl⟩
  obtain ⟨table, htable⟩ := exists_foldlM hstep []
  exact ⟨table, bind_eq_ok.2 ⟨declared, h, htable⟩⟩

theorem declares_of_lookup (h : program.declarations = .ok declared) (hfound : declared.lookup? n = some d) :
    d.name = n ∧ program.Declares d := by
  obtain ⟨tables, htables, h⟩ := bind_eq_ok.1 h
  cases pure_eq_ok.1 h
  rw [NameTable.lookup_offerAll] at hfound
  have hfind : tables.flatten.find? (·.name == n) = some d := Option.none_or.symm.trans hfound
  obtain ⟨ds, hds, hd⟩ := List.mem_flatten.1 (List.mem_of_find?_eq_some hfind)
  obtain ⟨statement, hmem, hstatement⟩ := (mem_mapM_iff htables).1 hds
  have hname := List.find?_some hfind
  exact ⟨eq_of_beq hname, statement, hmem, ds, hstatement, hd⟩

/-- What a program declares is bound plainly. -/
theorem plain_of_declares (h : program.Declares d) : (Form.plain, d.name) ∈ program.blockBindings := by
  obtain ⟨statement, hmem, ds, hds, hd⟩ := h
  refine List.mem_append_left _ (List.mem_flatMap.2 ⟨statement, hmem, ?_⟩)
  exact ((readsPlain_statement hds).plain d.name).2 ⟨d, hd, rfl⟩

theorem lookup_ne_none_of_plain (h : program.declarations = .ok declared)
    (hplain : (Form.plain, n) ∈ program.blockBindings) : ∃ d, declared.lookup? n = some d := by
  obtain ⟨ds, hreads, hlookup⟩ := readsPlain_declarations h
  obtain ⟨d, hd, hname⟩ := (hreads.plain n).1 hplain
  rw [hlookup]
  cases hfind : ds.find? (·.name == n) with
  | some d => exact ⟨d, rfl⟩
  | none => exact absurd (by simpa using hname) (List.find?_eq_none.1 hfind d hd)

theorem binds_iff : program.binds n = true ↔ ∃ form, (form, n) ∈ program.blockBindings := by
  rw [binds, List.any_eq_true]
  constructor
  · rintro ⟨⟨form, _⟩, hmem, hname⟩
    exact ⟨form, eq_of_beq hname ▸ hmem⟩
  · rintro ⟨form, hmem⟩
    exact ⟨(form, n), hmem, beq_self_eq_true n⟩

/-! ### Which exports there are -/

section Exported

variable {e : Export} {exported : String}

theorem mem_exported : e ∈ program.exported ↔ ∃ statement ∈ program.exportStatements,
    e ∈ statement.declaredExports ∨ e ∈ statement.valueExports ∨ e ∈ statement.starExports ∨
      ∃ specifier ∈ statement.specifiers, e ∈ program.specifierExports statement specifier := by
  simp only [Site.exported, List.mem_flatMap, List.mem_append]

theorem mem_declaredExports : e ∈ statement.declaredExports ↔ ∃ binding ∈ statement.statementBindings,
    e = (if statement.isDefaultExport then ⟨.default, "default", .binding binding.2⟩
      else ⟨.declared, binding.2, .binding binding.2⟩) := by
  simp only [declaredExports, List.mem_map, eq_comm]

theorem mem_valueExports : e ∈ statement.valueExports ↔ statement.part? .declaration = none ∧
    (∃ v, statement.part? .value = some v) ∧ e = ⟨.default, "default", .value statement⟩ := by
  rw [valueExports, ← Option.isSome_iff_exists]
  cases statement.part? .declaration <;> cases statement.part? .value <;> simp

theorem eq_of_mem_starExports (h : e ∈ statement.starExports) : e = ⟨.passedOn, e.name, .elsewhere⟩ := by
  obtain ⟨star, -, h⟩ := List.mem_flatMap.1 h
  obtain ⟨name, -, rfl⟩ := List.mem_map.1 h
  rfl

theorem specifierExports_of_source (hname : specifier.part? .name = some name)
    (hsource : (statement.part? .source).isSome = true)
    (hexported : specifier.exportName? name = some exported) :
    program.specifierExports statement specifier = [⟨.passedOn, exported, .elsewhere⟩] := by
  rw [specifierExports, hname]
  dsimp only
  rw [hexported, hsource]
  rfl

theorem specifierExports_of_list (hname : specifier.part? .name = some name)
    (hsource : statement.part? .source = none) (hexported : specifier.exportName? name = some exported)
    (hbound : program.binds name.text = true) :
    program.specifierExports statement specifier = [⟨.listed, exported, .binding name.text⟩] := by
  rw [specifierExports, hname]
  dsimp only
  rw [hexported, hsource, hbound]
  rfl

theorem mem_specifierExports : e ∈ program.specifierExports statement specifier ↔
    ∃ name, specifier.part? .name = some name ∧ ∃ exported, specifier.exportName? name = some exported ∧
      ((statement.part? .source ≠ none ∧ e = ⟨.passedOn, exported, .elsewhere⟩) ∨
        (statement.part? .source = none ∧ program.binds name.text = true ∧
          e = ⟨.listed, exported, .binding name.text⟩)) := by
  rw [specifierExports]
  cases specifier.part? .name with
  | none => simp
  | some name =>
    simp only [List.mem_flatMap, Option.mem_toList, Option.some_inj, exists_eq_left']
    refine exists_congr fun exported => and_congr Option.mem_def ?_
    cases statement.part? .source with
    | some source => simp
    | none => cases program.binds name.text <;> simp

/-- What an entry of an export list has under the name in it. -/
theorem mem_exported_of_specifier (hstatement : statement ∈ program.exportStatements)
    (hmem : specifier ∈ statement.specifiers) (h : e ∈ program.specifierExports statement specifier) :
    e ∈ program.exported :=
  mem_exported.2 ⟨statement, hstatement, .inr (.inr (.inr ⟨specifier, hmem, h⟩))⟩

theorem mem_exported_of_value {v : Site} (hstatement : statement ∈ program.exportStatements)
    (hdeclaration : statement.part? .declaration = none) (hv : statement.part? .value = some v) :
    ⟨.default, "default", .value statement⟩ ∈ program.exported :=
  mem_exported.2 ⟨statement, hstatement, .inr (.inl (mem_valueExports.2 ⟨hdeclaration, ⟨v, hv⟩, rfl⟩))⟩

/-- Where what is exported in a form comes from. -/
theorem origin_of_form (h : e ∈ program.exported) : match e.form with
    | .declared => e.origin = .binding e.name
    | .default => e.name = "default" ∧
      ((∃ name, e.origin = .binding name) ∨ ∃ statement, e.origin = .value statement)
    | .listed => ∃ name, e.origin = .binding name
    | .passedOn => e.origin = .elsewhere := by
  obtain ⟨statement, -, h⟩ := mem_exported.1 h
  rcases h with h | h | h | ⟨specifier, -, h⟩
  · obtain ⟨binding, -, heq⟩ := mem_declaredExports.1 h
    split at heq
    · subst heq
      exact ⟨rfl, .inl ⟨_, rfl⟩⟩
    · subst heq
      rfl
  · obtain ⟨-, -, rfl⟩ := mem_valueExports.1 h
    exact ⟨rfl, .inr ⟨_, rfl⟩⟩
  · rw [eq_of_mem_starExports h]
  · obtain ⟨name, -, exported, -, ⟨-, rfl⟩ | ⟨-, -, rfl⟩⟩ := mem_specifierExports.1 h
    · rfl
    · exact ⟨_, rfl⟩

end Exported

/-- What is assumed of the exports of a program. -/
structure ExportRules (program : Site) : Prop where
  /-- No name is exported in two ways. -/
  apart : ∀ e ∈ program.exported, ∀ e' ∈ program.exported, e.name = e'.name → e = e'
  /-- The word `default` is no name. -/
  reserved : program.binds "default" = false
  /-- No exported name has quotes in it and reads like the quoted name in a list. -/
  spelled : ∀ statement ∈ program.exportStatements, ∀ specifier ∈ statement.specifiers,
    ∀ name, specifier.part? .name = some name → ∀ e ∈ program.exported,
      e.name = (specifier.namedAs name).text → specifier.exportName? name = some e.name

/-- The plain forms of exports. -/
structure ExportsPlainly (program : Site) : Prop where
  /-- Exported declarations have plain names. -/
  declared : ∀ e ∈ program.exported, e.form = .declared → ∃ statement ∈ program.exportStatements,
    (statement.part? .declaration).isSome = true ∧ (Form.plain, e.name) ∈ statement.statementBindings
  /-- The default is no declaration. -/
  default : ∀ e ∈ program.exported, e.form = .default → ∃ statement, e.origin = .value statement
  /-- What is listed is declared by a plain name. -/
  listed : ∀ e ∈ program.exported, e.form = .listed →
    ∃ name, e.origin = .binding name ∧ (Form.plain, name) ∈ program.blockBindings
  /-- A list of another file's names has no plain name of the program. -/
  passedOn : ∀ statement ∈ program.exportStatements, (statement.part? .source).isSome = true →
    ∀ specifier ∈ statement.specifiers, ∀ name, specifier.part? .name = some name →
      (Form.plain, name.text) ∉ program.blockBindings
  /-- What is listed is not exported under a quoted name. -/
  unquoted : ∀ statement ∈ program.exportStatements, statement.part? .source = none →
    ∀ specifier ∈ statement.specifiers, ∀ name, specifier.part? .name = some name →
      (Form.plain, name.text) ∈ program.blockBindings →
        specifier.exportName? name = some (specifier.namedAs name).text

/-- A table that maps a name to a declaration exactly if the program exports what it stands for under the
name. -/
structure IsExportTable (program : Site) (table : NameTable) : Prop where
  sound : ∀ n d, table.lookup? n = some d →
    ∃ form o, ⟨form, n, o⟩ ∈ program.exported ∧ program.StandsFor d o
  complete : ∀ e ∈ program.exported, e.origin ≠ .elsewhere →
    ∃ d, table.lookup? e.name = some d ∧ program.StandsFor d e.origin

/-! ### Reading what is exported -/

/-- What a declaration stands for is no other file's. -/
theorem StandsFor.not_elsewhere {o : Origin} (h : program.StandsFor d o) : o ≠ .elsewhere := by
  rintro rfl
  exact h

/-- Where the plain forms are kept to, what is read is exported. -/
theorem ExportsPlainly.exported_of_reads (hplain : program.ExportsPlainly)
    (hdeclared : program.declarations = .ok declared) (hstatement : statement ∈ program.exportStatements)
    (h : Reads declared statement n d) :
    ∃ form o, ⟨form, n, o⟩ ∈ program.exported ∧ program.StandsFor d o := by
  obtain ⟨hmem, hkind⟩ := List.mem_filter.1 hstatement
  cases h with
  | declared inside declarations mem =>
    rw [← statementDeclarations_of_declaration hkind inside] at declarations
    have hbinding := ((readsPlain_statement declarations).plain d.name).2 ⟨d, mem, rfl⟩
    have hexported := mem_exported.2 ⟨statement, hstatement, .inl (mem_declaredExports.2 ⟨_, hbinding, rfl⟩)⟩
    cases hdefault : statement.isDefaultExport with
    | false =>
      rw [hdefault] at hexported
      exact ⟨_, _, hexported, rfl, statement, hmem, _, declarations, mem⟩
    | true =>
      rw [hdefault] at hexported
      obtain ⟨_, horigin⟩ := hplain.default _ hexported rfl
      cases horigin
  | @value v noDeclaration isValue =>
    have hvalue := mem_valueExports.2 ⟨noDeclaration, ⟨v, isValue⟩, rfl⟩
    exact ⟨_, _, mem_exported.2 ⟨statement, hstatement, .inr (.inl hvalue)⟩, by rw [StandsFor, isValue]⟩
  | @listed specifier name _ mem ownName found =>
    obtain ⟨hname, hdeclares⟩ := declares_of_lookup hdeclared found
    have hbound : (Form.plain, name.text) ∈ program.blockBindings := hname ▸ plain_of_declares hdeclares
    cases hsource : statement.part? .source with
    | some source =>
      exact absurd hbound (hplain.passedOn statement hstatement (by rw [hsource]; rfl) _ mem _ ownName)
    | none =>
      have hspelled := hplain.unquoted statement hstatement hsource _ mem _ ownName hbound
      refine ⟨.listed, .binding name.text, mem_exported_of_specifier hstatement mem ?_, hname, hdeclares⟩
      exact mem_specifierExports.2 ⟨name, ownName, _, hspelled, .inr ⟨hsource, binds_iff.2 ⟨_, hbound⟩, rfl⟩⟩

/-- There, too, everything that the program exports of its own is read. -/
theorem ExportsPlainly.reads_of_exported (hplain : program.ExportsPlainly)
    (hdeclared : program.declarations = .ok declared) {e : Export} (he : e ∈ program.exported)
    (horigin : e.origin ≠ .elsewhere) :
    ∃ statement ∈ program.exportStatements, ∃ d, Reads declared statement e.name d := by
  have hdeclares (hform : e.form = .declared) :
      ∃ statement ∈ program.exportStatements, ∃ d, Reads declared statement e.name d := by
    obtain ⟨statement, hstatement, hinner, hbinding⟩ := hplain.declared e he hform
    obtain ⟨hmem, hkind⟩ := List.mem_filter.1 hstatement
    obtain ⟨inner, hinner⟩ := Option.isSome_iff_exists.1 hinner
    obtain ⟨ds, hds⟩ := exists_declarations_iff.1 ⟨declared, hdeclared⟩ statement hmem
    obtain ⟨d, hd, hname⟩ := ((readsPlain_statement hds).plain e.name).1 hbinding
    rw [statementDeclarations_of_declaration hkind hinner] at hds
    exact ⟨statement, hstatement, d, hname ▸ .declared hinner hds hd⟩
  obtain ⟨statement, hstatement, h⟩ := mem_exported.1 he
  rcases h with h | h | h | ⟨specifier, hmem, h⟩
  · obtain ⟨binding, -, heq⟩ := mem_declaredExports.1 h
    split at heq
    · obtain ⟨_, hvalue⟩ := hplain.default e he (by rw [heq])
      rw [heq] at hvalue
      cases hvalue
    · exact hdeclares (by rw [heq])
  · obtain ⟨hdeclaration, ⟨v, hv⟩, rfl⟩ := mem_valueExports.1 h
    exact ⟨statement, hstatement, _, .value hdeclaration hv⟩
  · exact absurd (congrArg Export.origin (eq_of_mem_starExports h)) horigin
  · obtain ⟨name, hname, exported, hexported, ⟨-, rfl⟩ | ⟨hsource, -, rfl⟩⟩ := mem_specifierExports.1 h
    · exact absurd rfl horigin
    · obtain ⟨_, heq, hbound⟩ := hplain.listed _ he rfl
      cases heq
      obtain ⟨d, hd⟩ := lookup_ne_none_of_plain hdeclared hbound
      have hspelled := hplain.unquoted statement hstatement hsource specifier hmem name hname hbound
      cases hexported.symm.trans hspelled
      exact ⟨statement, hstatement, d, .listed hmem hname hd⟩

/-- So the table is right. -/
theorem ExportsPlainly.isExportTable (hplain : program.ExportsPlainly) (hrules : program.ExportRules)
    (h : program.exports = .ok table) : program.IsExportTable table := by
  obtain ⟨declared, hdeclared, hgathers⟩ := gathers_exports h
  have hread (n : String) (d : Declaration) (hd : table.lookup? n = some d) :
      ∃ form o, ⟨form, n, o⟩ ∈ program.exported ∧ program.StandsFor d o := by
    obtain ⟨statement, hstatement, hreads⟩ := (hgathers.sound n d hd).resolve_left nofun
    exact hplain.exported_of_reads hdeclared hstatement hreads
  refine ⟨hread, fun e he horigin => ?_⟩
  obtain ⟨statement, hstatement, d, hreads⟩ := hplain.reads_of_exported hdeclared he horigin
  obtain ⟨d', hd'⟩ := Option.ne_none_iff_exists'.1 (hgathers.complete _ d ⟨statement, hstatement, hreads⟩)
  obtain ⟨form, o, hmem, hstands⟩ := hread _ _ hd'
  have heq := hrules.apart e he _ hmem rfl
  exact ⟨d', hd', congrArg Export.origin heq ▸ hstands⟩

/-! ### Tables that are right -/

section Right

variable {e : Export}

/-- What a program exports of its own is read somewhere, if its table is right. -/
theorem IsExportTable.exists_reads (hright : program.IsExportTable table) (h : program.exports = .ok table)
    (he : e ∈ program.exported) (horigin : e.origin ≠ .elsewhere) :
    ∃ declared, program.declarations = .ok declared ∧ ∃ statement ∈ program.exportStatements,
      ∃ d, Reads declared statement e.name d ∧ program.StandsFor d e.origin := by
  obtain ⟨declared, hdeclared, hgathers⟩ := gathers_exports h
  obtain ⟨d, hd, hstands⟩ := hright.complete e he horigin
  obtain ⟨statement, hstatement, hreads⟩ := (hgathers.sound _ _ hd).resolve_left nofun
  exact ⟨declared, hdeclared, statement, hstatement, d, hreads, hstands⟩

/-- And what is read is exported under its name. -/
theorem IsExportTable.exists_exported (hright : program.IsExportTable table) (h : program.exports = .ok table)
    (hdeclared : program.declarations = .ok declared) (hstatement : statement ∈ program.exportStatements)
    (hreads : Reads declared statement n d) : ∃ e ∈ program.exported, e.name = n ∧ e.origin ≠ .elsewhere := by
  obtain ⟨declared', hdeclared', hgathers⟩ := gathers_exports h
  cases hdeclared.symm.trans hdeclared'
  obtain ⟨d', hd'⟩ := Option.ne_none_iff_exists'.1 (hgathers.complete n d ⟨statement, hstatement, hreads⟩)
  obtain ⟨form, o, hmem, hstands⟩ := hright.sound n d' hd'
  exact ⟨_, hmem, rfl, hstands.not_elsewhere⟩

/-- An entry of an export list that is read exports something under the name, if anything does. -/
theorem ExportRules.form_of_listed (hrules : program.ExportRules)
    (hdeclared : program.declarations = .ok declared) (hstatement : statement ∈ program.exportStatements)
    (hmem : specifier ∈ statement.specifiers) (hname : specifier.part? .name = some name)
    (hfound : declared.lookup? name.text = some d) (he : e ∈ program.exported)
    (hspelled : e.name = (specifier.namedAs name).text) :
    (statement.part? .source ≠ none ∧ e = ⟨.passedOn, e.name, .elsewhere⟩) ∨
      (statement.part? .source = none ∧ e = ⟨.listed, e.name, .binding name.text⟩) := by
  have hexported := hrules.spelled statement hstatement specifier hmem name hname e he hspelled
  have hexports {e' : Export} (h : e' ∈ program.specifierExports statement specifier)
      (heq : e.name = e'.name) : e = e' :=
    hrules.apart e he e' (mem_exported_of_specifier hstatement hmem h) heq
  obtain ⟨heq, hdeclares⟩ := declares_of_lookup hdeclared hfound
  have hbound : program.binds name.text = true := binds_iff.2 ⟨_, heq ▸ plain_of_declares hdeclares⟩
  by_cases hsource : statement.part? .source = none
  · exact .inr ⟨hsource, hexports (mem_specifierExports.2
      ⟨name, hname, _, hexported, .inr ⟨hsource, hbound, rfl⟩⟩) rfl⟩
  · exact .inl ⟨hsource, hexports (mem_specifierExports.2
      ⟨name, hname, _, hexported, .inl ⟨hsource, rfl⟩⟩) rfl⟩

/-- What is read under the name of an exported declaration is a declaration of that name. -/
theorem ExportRules.declared_of_reads (hrules : program.ExportRules)
    (hdeclared : program.declarations = .ok declared) (hstatement : statement ∈ program.exportStatements)
    (he : e ∈ program.exported) {a : String} (hbinding : e.origin = .binding a) (hform : e.form ≠ .listed)
    (hreads : Reads declared statement e.name d) :
    (statement.part? .declaration).isSome = true ∧ d.name = e.name ∧
      (Form.plain, e.name) ∈ statement.statementBindings := by
  obtain ⟨form, n, o⟩ := e
  cases hreads with
  | declared inside declarations mem =>
    rw [← statementDeclarations_of_declaration (List.mem_filter.1 hstatement).2 inside] at declarations
    exact ⟨by rw [inside]; rfl, rfl, ((readsPlain_statement declarations).plain _).2 ⟨d, mem, rfl⟩⟩
  | value noDeclaration isValue =>
    cases hrules.apart _ he _ (mem_exported_of_value hstatement noDeclaration isValue) rfl
    cases hbinding
  | listed mem ownName found =>
    rcases hrules.form_of_listed hdeclared hstatement mem ownName found he rfl with ⟨-, heq⟩ | ⟨-, heq⟩
    · cases heq
      cases hbinding
    · cases heq
      exact absurd rfl hform

/-- In a program with a table that is right all exports are plain. -/
theorem IsExportTable.exportsPlainly (hrules : program.ExportRules) (h : program.exports = .ok table)
    (hright : program.IsExportTable table) : program.ExportsPlainly where
  declared := by
    rintro ⟨form, n, o⟩ he rfl
    obtain rfl : o = .binding n := origin_of_form he
    obtain ⟨declared, hdeclared, statement, hstatement, d, hreads, -⟩ := hright.exists_reads h he nofun
    obtain ⟨hinner, -, hbound⟩ := hrules.declared_of_reads hdeclared hstatement he rfl nofun hreads
    exact ⟨statement, hstatement, hinner, hbound⟩
  default := by
    rintro ⟨form, n, o⟩ he rfl
    obtain ⟨rfl, ⟨a, rfl⟩ | hvalue⟩ :
      n = "default" ∧ ((∃ a, o = .binding a) ∨ ∃ statement, o = .value statement) := origin_of_form he
    · -- The declaration would have to be called `default`.
      obtain ⟨declared, hdeclared, statement, hstatement, d, hreads, -, hdeclares⟩ :=
        hright.exists_reads h he nofun
      obtain ⟨-, hname, -⟩ := hrules.declared_of_reads hdeclared hstatement he rfl nofun hreads
      have hbound := binds_iff.2 ⟨_, hname ▸ plain_of_declares hdeclares⟩
      rw [hrules.reserved] at hbound
      cases hbound
    · exact hvalue
  listed := by
    rintro ⟨form, n, o⟩ he rfl
    obtain ⟨a, rfl⟩ : ∃ a, o = .binding a := origin_of_form he
    obtain ⟨_, _, _, _, d, -, rfl, hdeclares⟩ := hright.exists_reads h he nofun
    exact ⟨d.name, rfl, plain_of_declares hdeclares⟩
  passedOn := by
    intro statement hstatement hsource specifier hmem name hname hbound
    obtain ⟨declared, hdeclared, -⟩ := gathers_exports h
    obtain ⟨d, hd⟩ := lookup_ne_none_of_plain hdeclared hbound
    obtain ⟨e, he, hspelled, horigin⟩ :=
      hright.exists_exported h hdeclared hstatement (.listed hmem hname hd)
    rcases hrules.form_of_listed hdeclared hstatement hmem hname hd he hspelled with ⟨-, heq⟩ | ⟨hnone, -⟩
    · exact horigin (congrArg Export.origin heq)
    · rw [hnone] at hsource
      cases hsource
  unquoted := by
    intro statement hstatement _ specifier hmem name hname hbound
    obtain ⟨declared, hdeclared, -⟩ := gathers_exports h
    obtain ⟨d, hd⟩ := lookup_ne_none_of_plain hdeclared hbound
    obtain ⟨e, he, hspelled, -⟩ := hright.exists_exported h hdeclared hstatement (.listed hmem hname hd)
    rw [← hspelled]
    exact hrules.spelled statement hstatement specifier hmem name hname e he hspelled

end Right

end Site

/-! ### Programs by hand -/

/-- An export statement with parts behind the word. -/
def exportNode (parts : List Node) : Node := .tree .exportStatement none (.token none "\n" "export" :: parts)

def exportList (specifier : List Node) : Node :=
  .tree .exportClause none
    [.token none "" "\x7b", .tree .exportSpecifier none specifier, .token none "" "\x7d"]

def endNode : Node := .token none "" ";"

def oneNode : Node := .leaf .number none "" "1"

/-- A constant under another name, a default value and an exported constant. -/
def plainProgram : Node :=
  .tree .program none
    [constantNode "" "a" oneNode,
     exportNode [exportList [.leaf .identifier (some .name) "" "a", .token none " " "as",
       .leaf .identifier (some .rename) " " "b"], endNode],
     exportNode [.token none " " "default", .leaf .number (some .value) " " "5", endNode],
     exportNode [(constantNode " " "c" oneNode).withRole .declaration]]

/-- A list of another file's names with a name of the program, and a default function. -/
def mistakenProgram : Node :=
  .tree .program none
    [constantNode "" "a" oneNode,
     exportNode [exportList [.leaf .identifier (some .name) "" "a"], .token none "" "from",
       .leaf .string (some .source) "" "\"m\"", endNode],
     exportNode [.token none " " "default",
       .tree .functionDeclaration (some .declaration)
        [.token none " " "function", .leaf .identifier (some .name) " " "f",
         .tree .formalParameters (some .parameters) [.token none "" "(", .token none "" ")"],
         .tree .statementBlock (some .body) [.token none "" "\x7b", .token none "" "\x7d"]]]]

def plainStatement (i : Nat) : Site := (siteOf plainProgram).named[i]?.getD (siteOf plainProgram)

def mistakenStatement (i : Nat) : Site := (siteOf mistakenProgram).named[i]?.getD (siteOf mistakenProgram)

theorem listStatement_bindings : (plainStatement 1).statementBindings = [] :=
  Site.statementBindings_of_no_declaration rfl rfl (by decide +kernel)

theorem valueStatement_bindings : (plainStatement 2).statementBindings = [] :=
  Site.statementBindings_of_no_declaration rfl rfl (by decide +kernel)

theorem blockBindings_plainProgram :
    (siteOf plainProgram).blockBindings = [(.plain, "a"), (.plain, "c")] := by
  show ((plainStatement 0).statementBindings ++ ((plainStatement 1).statementBindings ++
    ((plainStatement 2).statementBindings ++ ((plainStatement 3).statementBindings ++ [])))) ++ _ = _
  rw [listStatement_bindings, valueStatement_bindings]
  rfl

theorem exported_plainProgram : (siteOf plainProgram).exported =
    [⟨.listed, "b", .binding "a"⟩, ⟨.default, "default", .value (plainStatement 2)⟩,
      ⟨.declared, "c", .binding "c"⟩] := by
  have hbinds : (siteOf plainProgram).binds "a" = true := by
    rw [Site.binds, blockBindings_plainProgram]
    rfl
  have hlisted : (plainStatement 1).specifiers.flatMap
      ((siteOf plainProgram).specifierExports (plainStatement 1)) = [⟨.listed, "b", .binding "a"⟩] := by
    show (siteOf plainProgram).specifierExports (plainStatement 1) _ ++ [] = _
    rw [Site.specifierExports_of_list rfl rfl rfl hbinds]
    rfl
  show ((plainStatement 1).declaredExports ++ ([] ++ ([] ++
      (plainStatement 1).specifiers.flatMap ((siteOf plainProgram).specifierExports (plainStatement 1))))) ++
    (((plainStatement 2).declaredExports ++ _) ++ _) = _
  rw [Site.declaredExports, listStatement_bindings, hlisted, Site.declaredExports, valueStatement_bindings]
  rfl

/-- The one entry of a list in the program is exported as it is spelled. -/
theorem spelled_plainProgram {statement specifier name : Site}
    (hstatement : statement ∈ (siteOf plainProgram).exportStatements)
    (hmem : specifier ∈ statement.specifiers) (hname : specifier.part? .name = some name) :
    specifier.exportName? name = some (specifier.namedAs name).text := by
  have hone : specifier ∈ (siteOf plainProgram).exportStatements.flatMap Site.specifiers :=
    List.mem_flatMap.2 ⟨statement, hstatement, hmem⟩
  cases List.mem_singleton.1 hone
  cases hname
  rfl

theorem exportRules_plainProgram : (siteOf plainProgram).ExportRules where
  apart := by
    rw [exported_plainProgram]
    simp
  reserved := by
    rw [Site.binds, blockBindings_plainProgram]
    rfl
  spelled statement hstatement specifier hmem name hname e _ hspelled := by
    rw [hspelled]
    exact spelled_plainProgram hstatement hmem hname

theorem exportsPlainly_plainProgram : (siteOf plainProgram).ExportsPlainly where
  declared := by
    have hthird : plainStatement 3 ∈ (siteOf plainProgram).exportStatements := .tail _ (.tail _ (.head _))
    rw [exported_plainProgram]
    simpa using ⟨plainStatement 3, hthird, rfl, List.mem_singleton.2 rfl⟩
  default := by
    rw [exported_plainProgram]
    simp
  listed := by
    rw [exported_plainProgram, blockBindings_plainProgram]
    simp
  passedOn statement hstatement hsource := by
    have hown : (siteOf plainProgram).exportStatements.filterMap (·.part? .source) = [] := rfl
    rw [List.filterMap_eq_nil_iff.1 hown statement hstatement] at hsource
    cases hsource
  unquoted _ hstatement _ _ hmem _ hname _ := spelled_plainProgram hstatement hmem hname

theorem exists_declarations_plainProgram : ∃ declared, (siteOf plainProgram).declarations = .ok declared := by
  refine Site.exists_declarations_iff.2 ?_
  show ∀ statement ∈ [plainStatement 0, plainStatement 1, plainStatement 2, plainStatement 3], _
  simp only [List.forall_mem_cons]
  exact ⟨⟨_, rfl⟩, ⟨_, Site.statementDeclarations_of_no_declaration rfl rfl (by decide +kernel)⟩,
    ⟨_, Site.statementDeclarations_of_no_declaration rfl rfl (by decide +kernel)⟩, ⟨_, rfl⟩, nofun⟩

/-! ### Programs with right tables -/

/-- **A table of exports is that of its program exactly if the program exports in plain forms only.** -/
theorem exports_right_iff {program : Site} (hrules : program.ExportRules) :
    (∃ table, program.exports = .ok table ∧ program.IsExportTable table) ↔
      (∃ declared, program.declarations = .ok declared) ∧ program.ExportsPlainly := by
  constructor
  · rintro ⟨table, htable, hright⟩
    obtain ⟨declared, hdeclared, -⟩ := Site.gathers_exports htable
    exact ⟨⟨declared, hdeclared⟩, hright.exportsPlainly hrules htable⟩
  · rintro ⟨⟨declared, hdeclared⟩, hplain⟩
    obtain ⟨table, htable⟩ := Site.exists_exports hdeclared
    exact ⟨table, htable, hplain.isExportTable hrules htable⟩

theorem plain_exports_right : (siteOf plainProgram).ExportRules ∧
    ∃ table, (siteOf plainProgram).exports = .ok table ∧ (siteOf plainProgram).IsExportTable table :=
  ⟨exportRules_plainProgram, (exports_right_iff exportRules_plainProgram).2
    ⟨exists_declarations_plainProgram, exportsPlainly_plainProgram⟩⟩

/-- A list of another file's names maps a name to a declaration here, and a default function is entered under
its own name. -/
theorem passed_on_name_mapped :
    parse .plain "const a =1;\nexport\x7ba\x7dfrom\"m\";\nexport default function f()\x7b\x7d" =
      mistakenProgram ∧
    (siteOf mistakenProgram).exported =
      [⟨.passedOn, "a", .elsewhere⟩, ⟨.default, "default", .binding "f"⟩] ∧
    (siteOf mistakenProgram).exports.toOption.map (·.map (·.1)) = some ["a", "f"] ∧
    ¬∃ table, (siteOf mistakenProgram).exports = .ok table ∧
      (siteOf mistakenProgram).IsExportTable table := by
  have hexported : (siteOf mistakenProgram).exported =
      [⟨.passedOn, "a", .elsewhere⟩, ⟨.default, "default", .binding "f"⟩] := by
    have hbindings : (mistakenStatement 1).statementBindings = [] :=
      Site.statementBindings_of_no_declaration rfl rfl (by decide +kernel)
    show ((mistakenStatement 1).declaredExports ++ ([] ++ ([] ++
      ((siteOf mistakenProgram).specifierExports (mistakenStatement 1) _ ++ [])))) ++ _ = _
    rw [Site.declaredExports, hbindings, Site.specifierExports_of_source rfl rfl rfl]
    rfl
  have hnames : (siteOf mistakenProgram).exports.toOption.map (·.map (·.1)) = some ["a", "f"] := by
    have hnamed : (siteOf mistakenProgram).named =
      [mistakenStatement 0, mistakenStatement 1, mistakenStatement 2] := rfl
    have hdeclares : (mistakenStatement 1).statementDeclarations = .ok [] :=
      Site.statementDeclarations_of_no_declaration rfl rfl (by decide +kernel)
    rw [Site.exports, Site.declarations, hnamed, List.mapM_cons, List.mapM_cons, hdeclares]
    rfl
  refine ⟨by decide +kernel, hexported, hnames, ?_⟩
  rintro ⟨table, htable, hright⟩
  rw [htable] at hnames
  have hkeys : table.map (·.1) = ["a", "f"] := Option.some.inj hnames
  have hdefault : ⟨.default, "default", .binding "f"⟩ ∈ (siteOf mistakenProgram).exported := by
    rw [hexported]
    exact .tail _ (.head _)
  obtain ⟨d, hd, -⟩ := hright.complete _ hdefault nofun
  obtain ⟨entry, hfind, -⟩ := Option.map_eq_some_iff.1 hd
  have hkey : entry.1 = "default" := by simpa using List.find?_some hfind
  have hmem : entry.1 ∈ table.map (·.1) := List.mem_map_of_mem (List.mem_of_find?_eq_some hfind)
  rw [hkeys, hkey] at hmem
  simp at hmem

end Syntax
end SettingsHarvest
