import Mathlib.Data.List.Basic
import SettingsHarvest.Proofs.Attempt
import SettingsHarvest.Evaluation
import SettingsHarvest.Proofs.Leaves
import SettingsHarvest.Proofs.Surroundings
import SettingsHarvest.Syntax.Program

/-! Scopes of the language.

A name is bound by the nearest node around it that binds it: a function its parameters, a block what its
statements declare, and so on through loops, `catch`, `switch`, enumerations and the names that function
and class expressions give themselves. `Place.bindings` lists them by their form, with names as they are
spelled. A `var` is bound in the body of its function as well as in the block it stands in, where it is
the same variable.

Looking a name up reads two of the forms, parameters and plain declarations, and it takes every
identifier among the parameters of a function for one of them. No binding of these two forms is ever
overlooked, and the declaration found is the binding of the name exactly where none of another form is in
between and no parameter is merely mentioned (`scoped_declaration_exact`). -/
namespace SettingsHarvest
open Syntax

namespace Syntax

/-! ### Patterns -/

/-- Where a pattern has the patterns it is made of: in all its parts, or in those of one role. -/
def Kind.patternRole? : Kind → Option (Option Role)
  | .formalParameters | .objectPattern | .arrayPattern | .restPattern => some none
  | .requiredParameter | .optionalParameter => some (some .pattern)
  | .pairPattern => some (some .value)
  | .assignmentPattern | .objectAssignmentPattern => some (some .left)
  | _ => none

namespace Node

mutual

/-- The names that a pattern binds. Its keys, defaults and types bind none. -/
def patternNames : Node → List String
  | .token .. => []
  | .leaf k _ _ text =>
    if k == .identifier || k == .shorthandPropertyIdentifierPattern then [text] else []
  | .tree k _ parts => match k.patternRole? with
    | some r? => patternNamesIn r? parts
    | none => []

def patternNamesIn (r? : Option Role) : List Node → List String
  | [] => []
  | part :: rest =>
    (if r?.all (part.role? == some ·) then patternNames part else []) ++ patternNamesIn r? rest

end

/-- An identifier by a name, as it can stand among parameters. -/
def isNamed (name : String) (n : Node) : Bool :=
  (n.hasKind .identifier || n.hasKind .shorthandPropertyIdentifierPattern) && n.text == name

mutual

/-- A name that a pattern binds is an identifier in it. -/
theorem exists_of_mem_patternNames {name : String} :
    ∀ {n : Node}, name ∈ patternNames n → ∃ m ∈ n.walk, m.isNamed name = true
  | .token .., h => nomatch h
  | .leaf k r b text, h => by
    unfold patternNames at h
    split at h
    · next hkind =>
      cases List.mem_singleton.1 h
      refine ⟨_, List.mem_cons_self, ?_⟩
      have htext : (Node.leaf k r b name).text = name := rfl
      simpa [isNamed, Node.hasKind, Node.kind?, htext] using hkind
    · cases h
  | .tree k r parts, h => by
    unfold patternNames at h
    split at h
    · obtain ⟨m, hm, hname⟩ := exists_of_mem_patternNamesIn h
      exact ⟨m, List.mem_cons_of_mem _ hm, hname⟩
    · cases h

theorem exists_of_mem_patternNamesIn {name : String} {r? : Option Role} :
    ∀ {parts : List Node}, name ∈ patternNamesIn r? parts → ∃ m ∈ walkAll parts, m.isNamed name = true
  | [], h => nomatch h
  | part :: rest, h => by
    rcases List.mem_append.1 h with h | h
    · split at h
      · obtain ⟨m, hm, hname⟩ := exists_of_mem_patternNames h
        exact ⟨m, List.mem_append_left _ hm, hname⟩
      · cases h
    · obtain ⟨m, hm, hname⟩ := exists_of_mem_patternNamesIn h
      exact ⟨m, List.mem_append_right _ hm, hname⟩

end

/-- What a `var` does not leave: functions, static blocks and namespaces. -/
def isVarScope (n : Node) : Bool :=
  n.kind?.any fun k => k.isFunction || k == .classStaticBlock || k == .internalModule
    || k == .moduleDeclaration

/-- The names that a declaration of variables binds. -/
def variableNames (declaration : Node) : List String :=
  declaration.parts.flatMap fun d =>
    if d.hasKind .variableDeclarator then ((d.part? .name).map patternNames).getD [] else []

/-- The names that a loop over a list or the keys of an object binds, if its keyword is of a sort. -/
def loopNames (keyword : String → Bool) (loop : Node) : List String :=
  if (loop.part? .kind).any (fun k => keyword k.text) then
    ((loop.part? .left).map patternNames).getD [] else []

mutual

/-- The names of all `var`s in a node. -/
def hoistedNames : Node → List String
  | .token .. => []
  | .leaf .. => []
  | .tree k r parts =>
    if isVarScope (.tree k r parts) then []
    else
      (match k with
        | .variableDeclaration => variableNames (.tree k r parts)
        | .forInStatement => loopNames (· == "var") (.tree k r parts)
        | _ => []) ++ hoistedNamesOf parts

def hoistedNamesOf : List Node → List String
  | [] => []
  | part :: rest => hoistedNames part ++ hoistedNamesOf rest

end

end Node

/-! ### Statements -/

/-- How a name is bound. -/
inductive Form where
  | parameter
  /-- By a declaration with a plain name. -/
  | plain
  /-- By a pattern in a declaration. -/
  | destructured
  /-- By a `var` in a statement inside. -/
  | hoisted
  | loop
  | caught
  /-- By a statement in a `case`. -/
  | clause
  /-- By the enumeration that an initializer is part of. -/
  | member
  /-- By another declaration of the same enumeration or namespace. -/
  | merged
  /-- By the function or class expression that has the name. -/
  | selfName
  /-- By a signature, or as a parameter in one. -/
  | signature
  | namespace
  /-- By `import name = …`. -/
  | alias
  /-- The name `arguments` in a function. -/
  | implicit
  deriving DecidableEq

/-- The forms that looking a name up reads. -/
def Form.isRead : Form → Bool
  | .parameter | .plain => true
  | _ => false

namespace Site

/-- The name that a node carries in its role. -/
def ownName (s : Site) (form : Form) : List (Form × String) :=
  (s.part? .name).toList.map fun name => (form, name.text)

def declaratorBindings (declarator : Site) : List (Form × String) :=
  if declarator.hasKind .variableDeclarator then
    match declarator.part? .name with
    | some name =>
      if name.hasKind .identifier then [(.plain, name.text)]
      else name.node.patternNames.map ((.destructured, ·))
    | none => []
  else []

/-- The names that one part of an import clause binds. -/
def importedNames (item : Site) : List String :=
  match item.kind? with
  | some .identifier => [item.text]
  | some .namespaceImport => item.named.getLast?.toList.map (·.text)
  | some .namedImports => item.named.filterMap fun specifier =>
    if specifier.hasKind .importSpecifier then
      (specifier.part? .name).map fun name => ((specifier.part? .rename).getD name).text
    else none
  | _ => []

def importBindings (statement : Site) : List (Form × String) :=
  (if (statement.part? .source).isSome then
      ((statement.named.filter (·.hasKind .importClause)).flatMap fun clause =>
        clause.named.flatMap importedNames).map ((.plain, ·))
    else []) ++
    (statement.named.filter (·.hasKind .importRequireClause)).flatMap fun clause =>
      (clause.named.find? (·.hasKind .identifier)).toList.map fun name => (.alias, name.text)

/-- The first of the names that a namespace goes by. -/
def namespaceName (s : Site) : List (Form × String) :=
  if s.hasKind .internalModule || s.hasKind .moduleDeclaration then
    ((s.part? .name).bind fun name => name.walk.find? (·.hasKind .identifier)).toList.map
      fun name => (.namespace, name.text)
  else []

/-- What statements bind that no table of names has. -/
def untabledBindings (statement : Site) : List (Form × String) :=
  match statement.kind? with
  | some .functionSignature => statement.ownName .signature
  | some .importAlias =>
    (statement.named.find? (·.hasKind .identifier)).toList.map fun name => (.alias, name.text)
  | some .expressionStatement => statement.named.flatMap namespaceName
  | _ => statement.namespaceName

/-- What a statement that is not exported binds in its block. -/
def ownBindings (statement : Site) : List (Form × String) :=
  match statement.kind? with
  | some .lexicalDeclaration | some .variableDeclaration => statement.named.flatMap declaratorBindings
  | some .enumDeclaration | some .functionDeclaration | some .generatorFunctionDeclaration
  | some .classDeclaration | some .abstractClassDeclaration => statement.ownName .plain
  | some .importStatement => statement.importBindings
  | _ => statement.untabledBindings

/-- A statement without the `export`, `declare` or semicolon around it. -/
def bare (statement : Site) : List Site :=
  if statement.hasKind .exportStatement || statement.hasKind .ambientDeclaration
      || statement.hasKind .expressionStatement then statement.named
  else [statement]

/-- What a statement binds in its block, also behind `export` and `declare`. -/
def statementBindings (statement : Site) : List (Form × String) :=
  match statement.declaringStatement? with
  | some inner => inner.ownBindings
  | none => (statement.bare.flatMap bare).flatMap untabledBindings

/-- The name that declarations of one enumeration, or of one namespace, have in common. -/
def sharedName? (s : Site) : Option (Bool × String) :=
  if s.hasKind .enumDeclaration || s.hasKind .internalModule || s.hasKind .moduleDeclaration then
    (s.part? .name).map fun name => (s.hasKind .enumDeclaration, name.text)
  else none

/-- The declarations in a block that make one enumeration or namespace together with another. -/
def mergedWith (s : Site) : List Site :=
  let block? := s.enclosing.find? fun block => block.hasKind .program || block.hasKind .statementBlock
  (((block?.map named).getD []).flatMap bare).flatMap bare |>.filter fun other =>
    other.sharedName?.isSome && other.sharedName? == s.sharedName?

/-- What the declarations of the enumeration or namespace of a body give together. -/
def mergedNames (names : Site → List String) (body : Site) : List String :=
  (body.parent?.toList.flatMap mergedWith).flatMap fun other => (other.part? .body).toList.flatMap names

def memberNames (body : Site) : List String :=
  body.named.filterMap fun member => (memberName ((member.part? .name).getD member)).toOption

def exportedNames (body : Site) : List String :=
  ((body.named.filter (·.hasKind .exportStatement)).flatMap statementBindings).map (·.2)

/-- A block that keeps the `var`s in it. -/
def keepsVars (block : Site) : Bool :=
  block.hasKind .program || block.above.head?.any Node.isVarScope

/-- What a block binds. -/
def blockBindings (block : Site) : List (Form × String) :=
  block.named.flatMap statementBindings ++
    ((if block.keepsVars then (Node.hoistedNamesOf block.node.parts).map ((.hoisted, ·)) else []) ++
      (block.mergedNames exportedNames).map ((.merged, ·)))

/-- The names of the parameters of a function or signature. -/
def parameterNames (function : Site) : List String :=
  match function.part? .parameter with
  | some p => if p.hasKind .identifier then [p.text] else []
  | none => ((function.part? .parameters).map (·.node.patternNames)).getD []

end Site

/-! ### Places -/

/-- A node around a site, and the way down to the site from its part. -/
structure Place where
  scope : Site
  inside : List Node

namespace Place

/-- In the computed name of a method or the decorator of a parameter, parameters are not known yet. -/
def beforeParameters (x : Place) : Bool :=
  match x.inside with
  | part :: rest => part.role? == some .name ||
    part.role? == some .parameters && rest[1]?.any (·.hasKind .decorator)
  | [] => false

/-- The names that a node binds for what is inside it. -/
def bindings (x : Place) : List (Form × String) :=
  match x.scope.kind? with
  | some .program | some .statementBlock => x.scope.blockBindings
  | some .switchBody =>
    (x.scope.named.flatMap fun clause => clause.named.flatMap Site.statementBindings).map
      fun binding => (.clause, binding.2)
  | some .forStatement =>
    ((x.scope.named.filter (·.hasKind .lexicalDeclaration)).flatMap Site.ownBindings).map
      fun binding => (.loop, binding.2)
  | some .forInStatement => (x.scope.node.loopNames (· != "var")).map ((.loop, ·))
  | some .catchClause => (((x.scope.part? .parameter).map (·.node.patternNames)).getD []).map ((.caught, ·))
  | some .enumBody =>
    x.scope.memberNames.map ((.member, ·)) ++ (x.scope.mergedNames Site.memberNames).map ((.merged, ·))
  | some .classExpression => x.scope.ownName .selfName
  | some k =>
    (if x.beforeParameters then []
      else x.scope.parameterNames.map ((if k.isFunction then .parameter else .signature, ·))) ++
    (if k == .functionExpression || k == .generatorFunction then x.scope.ownName .selfName else []) ++
    (if k.isFunction && k != .arrowFunction && !x.beforeParameters then [(.implicit, "arguments")] else [])
  | none => []

/-- How a node binds a name, if it does. -/
def boundAs (x : Place) (name : String) : Option Form :=
  (x.bindings.find? (·.2 == name)).map (·.1)

/-- A node binds a name in a form that looking it up does not read. -/
def Overlooked (x : Place) (name : String) : Prop :=
  ∃ form, x.boundAs name = some form ∧ form.isRead = false

end Place

/-- The nodes around a site as places, from the inside out. -/
def placesFrom (file : String) : List Node → List Node → List Place
  | _, [] => []
  | inside, n :: above => ⟨⟨file, above, n⟩, inside⟩ :: placesFrom file (n :: inside) above

def Site.places (s : Site) : List Place := placesFrom s.file [s.node] s.above

/-- The nearest place that binds a name: how many places are in front of it, and the form. -/
def nearest? (name : String) : List Place → Option (Nat × Form)
  | [] => none
  | x :: rest => match x.boundAs name with
    | some form => some (0, form)
    | none => (nearest? name rest).map fun (n, form) => (n + 1, form)

/-- The binding of a name at a site. -/
def Site.lexical? (s : Site) (name : String) : Option (Nat × Form) := nearest? name s.places

/-! ### Tables -/

namespace NameTable

theorem lookup_offer (t : NameTable) (name key : String) (d : Declaration) :
    (t.offer name d).lookup? key = (t.lookup? key).or (if name = key then some d else none) := by
  unfold offer lookup?
  cases hfound : List.find? (fun e => e.1 == name) t with
  | some e =>
    rw [Option.map_some, Option.isSome_some, if_pos rfl]
    by_cases hkey : name = key
    · subst hkey
      rw [hfound]
      rfl
    · rw [if_neg hkey, Option.or_none]
  | none =>
    rw [Option.map_none, if_neg (by simp), List.find?_append, List.find?_singleton]
    by_cases hkey : name = key
    · subst hkey
      rw [hfound]
      simp
    · rw [if_neg hkey, Option.or_none, if_neg (by simpa using hkey), Option.or_none]

/-- A name stands for the first declaration of it. -/
theorem lookup_offerAll (t : NameTable) (ds : List Declaration) (key : String) :
    (t.offerAll ds).lookup? key = (t.lookup? key).or (ds.find? (·.name == key)) := by
  induction ds generalizing t with
  | nil => rw [List.find?_nil, Option.or_none]; rfl
  | cons d rest ih =>
    have hstep := ih (t.offer d.name d)
    rw [lookup_offer, Option.or_assoc] at hstep
    refine Eq.trans hstep (congrArg _ ?_)
    by_cases hkey : d.name = key
    · rw [if_pos hkey, List.find?_cons_of_pos (by simpa using hkey), Option.some_or]
    · rw [if_neg hkey, List.find?_cons_of_neg (by simpa using hkey), Option.none_or]

end NameTable

namespace Site

variable {s block statement : Site} {name : String} {ds : List Declaration}

theorem not_read_map {α : Type} {form : Form} (h : form.isRead = false) (items : List α)
    (text : α → String) : ∀ b ∈ items.map fun a => (form, text a), b.1.isRead = false := by
  intro b hb
  obtain ⟨a, -, rfl⟩ := List.mem_map.1 hb
  exact h

/-- Declarations of names that are bound plainly, and of none else. -/
structure ReadsPlain (bindings : List (Form × String)) (ds : List Declaration) : Prop where
  plain : ∀ name, (Form.plain, name) ∈ bindings ↔ ∃ d ∈ ds, d.name = name
  form : ∀ binding ∈ bindings, binding.1 ≠ .parameter
  binding : ∀ d ∈ ds, d.binding ≠ .parameter

namespace ReadsPlain

theorem nil {bindings : List (Form × String)} (h : ∀ b ∈ bindings, b.1.isRead = false) :
    ReadsPlain bindings [] where
  plain name := by
    refine ⟨fun hmem => ?_, fun ⟨_, hd, _⟩ => nomatch hd⟩
    cases h _ hmem
  form b hb heq := by
    have hread := h b hb
    rw [heq] at hread
    cases hread
  binding := nofun

theorem append {bindings others : List (Form × String)} {ds' : List Declaration}
    (h : ReadsPlain bindings ds) (h' : ReadsPlain others ds') :
    ReadsPlain (bindings ++ others) (ds ++ ds') where
  plain name := by
    simp only [List.mem_append, h.plain, h'.plain, or_and_right, exists_or]
  form b hb := (List.mem_append.1 hb).elim (h.form b) (h'.form b)
  binding d hd := (List.mem_append.1 hd).elim (h.binding d) (h'.binding d)

theorem flatMap {α : Type} {items : List α} {bindings : α → List (Form × String)}
    {ds : α → List Declaration} (h : ∀ a ∈ items, ReadsPlain (bindings a) (ds a)) :
    ReadsPlain (items.flatMap bindings) (items.flatMap ds) := by
  induction items with
  | nil => exact .nil nofun
  | cons a rest ih =>
    obtain ⟨ha, hrest⟩ := List.forall_mem_cons.1 h
    exact ha.append (ih hrest)

/-- Declarations under the names that are bound. -/
theorem of_names {names : List String} (h : ds.map (·.name) = names)
    (hbinding : ∀ d ∈ ds, d.binding ≠ .parameter) : ReadsPlain (names.map ((.plain, ·))) ds where
  plain name := by
    subst h
    simp
  form b hb := by
    obtain ⟨name, -, rfl⟩ := List.mem_map.1 hb
    nofun
  binding := hbinding

theorem single {d : Declaration} {name : String} (hname : d.name = name)
    (h : d.binding ≠ .parameter) : ReadsPlain [(.plain, name)] [d] :=
  hname ▸ @of_names [d] _ rfl (List.forall_mem_singleton.2 h)

end ReadsPlain

theorem readsPlain_variables (s : Site) :
    ReadsPlain (s.named.flatMap declaratorBindings) s.plainVariables := by
  unfold plainVariables
  rw [List.filterMap_eq_flatMap_toList]
  refine .flatMap fun d _ => ?_
  unfold declaratorBindings
  split
  · cases d.part? .name with
    | none => exact .nil nofun
    | some name =>
      dsimp only
      split
      · exact .single rfl nofun
      · exact .nil (not_read_map rfl _ _)
  · exact .nil nofun

theorem readsPlain_byName (s : Site) {binding : Binding} (h : binding ≠ .parameter) :
    ReadsPlain (s.ownName .plain) (s.byName binding) := by
  unfold ownName byName
  cases s.part? .name with
  | none => exact .nil nofun
  | some name => exact .single rfl h

theorem not_read_namespaceName (s : Site) : ∀ b ∈ s.namespaceName, b.1.isRead = false := by
  unfold namespaceName
  split
  · exact not_read_map rfl _ _
  · exact nofun

theorem not_read_untabledBindings (s : Site) : ∀ b ∈ s.untabledBindings, b.1.isRead = false := by
  unfold untabledBindings
  split
  · exact not_read_map rfl _ _
  · exact not_read_map rfl _ _
  · intro b hb
    obtain ⟨part, -, hb⟩ := List.mem_flatMap.1 hb
    exact not_read_namespaceName part b hb
  · exact not_read_namespaceName s

theorem names_importsOf (source : String) (item : Site) :
    (importsOf source item).map (·.name) = item.importedNames := by
  unfold importsOf
  split
  case h_1 hkind =>
    unfold importedNames
    rw [hkind]
    rfl
  case h_2 hkind =>
    unfold importedNames
    rw [hkind]
    cases item.named.getLast? <;> rfl
  case h_3 hkind =>
    unfold importedNames
    rw [hkind, List.map_filterMap]
    refine List.filterMap_congr fun specifier _ => ?_
    split
    · cases specifier.part? .name <;> rfl
    · rfl
  case h_4 =>
    unfold importedNames
    split <;> first | contradiction | rfl

theorem binding_importsOf (source : String) (item : Site) :
    ∀ d ∈ importsOf source item, d.binding ≠ .parameter := by
  unfold importsOf
  split
  · exact List.forall_mem_singleton.2 nofun
  · split
    · exact List.forall_mem_singleton.2 nofun
    · exact nofun
  · intro d hd
    obtain ⟨specifier, -, hd⟩ := List.mem_filterMap.1 hd
    split at hd
    · obtain ⟨name, -, rfl⟩ := Option.map_eq_some_iff.1 hd
      nofun
    · cases hd
  · exact nofun

theorem readsPlain_imports (h : s.imports = .ok ds) : ReadsPlain s.importBindings ds := by
  unfold importBindings
  rw [← ds.append_nil]
  refine .append ?_ (.nil fun b hb => ?_)
  · unfold imports at h
    cases hsource : s.part? .source with
    | none =>
      rw [hsource] at h
      cases h
      exact .nil nofun
    | some source =>
      rw [hsource] at h
      obtain ⟨path, -, h⟩ := bind_eq_ok.1 h
      cases pure_eq_ok.1 h
      rw [Option.isSome_some, if_pos rfl]
      refine .of_names ?_ fun d hd => ?_
      · simp only [List.map_flatMap, names_importsOf]
      · obtain ⟨clause, -, hd⟩ := List.mem_flatMap.1 hd
        obtain ⟨item, -, hd⟩ := List.mem_flatMap.1 hd
        exact binding_importsOf path item d hd
  · obtain ⟨clause, -, hb⟩ := List.mem_flatMap.1 hb
    exact not_read_map rfl _ _ b hb

/-- What a table reads of a statement is what the statement binds plainly. -/
theorem readsPlain_statement (h : statement.statementDeclarations = .ok ds) :
    ReadsPlain statement.statementBindings ds := by
  unfold statementDeclarations at h
  unfold statementBindings
  cases hinner : statement.declaringStatement? with
  | none =>
    rw [hinner] at h
    cases h
    refine .nil fun b hb => ?_
    obtain ⟨part, -, hb⟩ := List.mem_flatMap.1 hb
    exact not_read_untabledBindings part b hb
  | some inner =>
    rw [hinner] at h
    dsimp only at h ⊢
    split at h
    case h_8 hkind =>
      unfold ownBindings
      rw [hkind]
      exact readsPlain_imports h
    case h_9 =>
      cases h
      unfold ownBindings
      split <;> first | contradiction | exact .nil (not_read_untabledBindings inner)
    all_goals
      rename_i hkind
      cases h
      unfold ownBindings
      rw [hkind]
    case h_1 | h_2 => exact readsPlain_variables inner
    case h_3 | h_4 | h_5 | h_6 | h_7 => exact readsPlain_byName inner (by simp)

theorem readsPlain_statements {statements : List Site} {tables : List (List Declaration)}
    (h : statements.mapM statementDeclarations = .ok tables) :
    ReadsPlain (statements.flatMap statementBindings) tables.flatten := by
  induction statements generalizing tables with
  | nil =>
    cases pure_eq_ok.1 h
    exact .nil nofun
  | cons statement rest ih =>
    rw [List.mapM_cons, bind_eq_ok] at h
    obtain ⟨first, hfirst, h⟩ := h
    obtain ⟨others, hothers, h⟩ := bind_eq_ok.1 h
    cases pure_eq_ok.1 h
    exact (readsPlain_statement hfirst).append (ih hothers)

/-- A table holds what its block binds plainly. -/
theorem readsPlain_declarations {table : NameTable} (h : block.declarations = .ok table) :
    ∃ ds, ReadsPlain block.blockBindings ds ∧
      ∀ name, table.lookup? name = ds.find? (·.name == name) := by
  obtain ⟨tables, htables, h⟩ := bind_eq_ok.1 h
  cases pure_eq_ok.1 h
  refine ⟨tables.flatten, ?_, fun name => ?_⟩
  · unfold blockBindings
    -- What is hoisted or merged into a block is in forms that its table does not have.
    rw [← tables.flatten.append_nil]
    refine (readsPlain_statements htables).append (.nil fun b hb => ?_)
    rcases List.mem_append.1 hb with hb | hb
    · split at hb
      · exact not_read_map rfl _ _ b hb
      · cases hb
    · exact not_read_map rfl _ _ b hb
  · rw [NameTable.lookup_offerAll]
    exact Option.none_or

/-- What a function takes as parameter is found among its parameters. -/
theorem bindsParameter_of_mem {function : Site} (h : name ∈ function.parameterNames) :
    function.bindsParameter name = true := by
  unfold parameterNames at h
  unfold bindsParameter
  cases hparameter : function.part? .parameter with
  | some p =>
    rw [hparameter] at h
    dsimp only at h ⊢
    split at h
    · rw [List.mem_singleton.1 h]
      exact beq_self_eq_true _
    · cases h
  | none =>
    rw [hparameter] at h
    dsimp only at h ⊢
    cases hparameters : function.part? .parameters with
    | none =>
      rw [hparameters] at h
      cases h
    | some ps =>
      rw [hparameters] at h
      obtain ⟨m, hm, hname⟩ := Node.exists_of_mem_patternNames h
      exact List.any_eq_true.2 ⟨m, hm, hname⟩

end Site

/-! ### One place -/

namespace Place

variable {x : Place} {name : String} {form : Form} {d : Declaration}

theorem mem_bindings (h : x.boundAs name = some form) : (form, name) ∈ x.bindings := by
  obtain ⟨⟨form', name'⟩, hfound, rfl⟩ := Option.map_eq_some_iff.1 h
  have hname := List.find?_some hfound
  rw [← eq_of_beq hname]
  exact List.mem_of_find?_eq_some hfound

theorem exists_boundAs (h : (form, name) ∈ x.bindings) : ∃ form', x.boundAs name = some form' := by
  unfold boundAs
  cases hfound : x.bindings.find? (·.2 == name) with
  | some binding => exact ⟨binding.1, rfl⟩
  | none =>
    have hother := List.find?_eq_none.1 hfound _ h
    exact absurd (beq_self_eq_true name) hother

theorem bindings_block (h : x.scope.hasKind .program || x.scope.hasKind .statementBlock) :
    x.bindings = x.scope.blockBindings := by
  unfold bindings
  rcases Bool.or_eq_true_iff.1 h with hkind | hkind <;> rw [Site.kind_eq_of_hasKind hkind]

/-- Apart from blocks, only functions bind in a form that is read, and only their parameters. -/
theorem isRead_of_mem (hmem : (form, name) ∈ x.bindings)
    (hblock : ¬ (x.scope.hasKind .program || x.scope.hasKind .statementBlock))
    (hfunction : x.scope.isFunction → name ∉ x.scope.parameterNames) : form.isRead = false := by
  unfold bindings at hmem
  split at hmem
  case h_1 hkind | h_2 hkind => exact absurd (by simp [Site.hasKind_iff, hkind]) hblock
  case h_3 | h_4 | h_5 | h_6 | h_8 => exact Site.not_read_map rfl _ _ _ hmem
  case h_7 =>
    rcases List.mem_append.1 hmem with hmem | hmem
    · exact Site.not_read_map rfl _ _ _ hmem
    · exact Site.not_read_map rfl _ _ _ hmem
  case h_9 k _ _ _ _ _ _ _ _ hkind =>
    rw [List.append_assoc] at hmem
    rcases List.mem_append.1 hmem with hmem | hmem
    · split at hmem
      · cases hmem
      · cases hk : k.isFunction with
        | true =>
          obtain ⟨_, hname, heq⟩ := List.mem_map.1 hmem
          cases heq
          have hfun : x.scope.isFunction = true := by simp [Site.isFunction, hkind, hk]
          exact absurd hname (hfunction hfun)
        | false =>
          rw [hk] at hmem
          exact Site.not_read_map rfl _ _ _ hmem
    · rcases List.mem_append.1 hmem with hmem | hmem
      · split at hmem
        · exact Site.not_read_map rfl _ _ _ hmem
        · cases hmem
      · split at hmem
        · cases List.mem_singleton.1 hmem
          rfl
        · cases hmem
  case h_10 => cases hmem

/-- A place that has no declaration of a name binds it in no form that is read. -/
theorem isRead_of_declaredBy_none (h : x.scope.declaredBy name = .ok none)
    (hform : x.boundAs name = some form) : form.isRead = false := by
  have hmem := mem_bindings hform
  unfold Site.declaredBy at h
  split at h
  · cases h
  · next hparameter =>
    split at h
    · next hblock =>
      obtain ⟨table, htable, h⟩ := bind_eq_ok.1 h
      obtain ⟨ds, hreads, hlookup⟩ := Site.readsPlain_declarations htable
      rw [bindings_block hblock] at hmem
      have hplain : form ≠ .plain := by
        rintro rfl
        obtain ⟨d, hd, hname⟩ := (hreads.plain name).1 hmem
        rw [hlookup, pure_eq_ok] at h
        exact List.find?_eq_none.1 h d hd (by simpa using hname)
      have hparameter := hreads.form _ hmem
      cases form <;> first | contradiction | rfl
    · next hblock =>
      refine isRead_of_mem hmem hblock fun hfunction hname => hparameter ?_
      rw [hfunction, Site.bindsParameter_of_mem hname]
      rfl

/-- A declaration is a parameter, or its place binds the name otherwise. -/
theorem declaredBy_cases (h : x.scope.declaredBy name = .ok (some d)) :
    d.name = name ∧ (d.binding = .parameter ∨
      d.binding ≠ .parameter ∧ ∃ form, x.boundAs name = some form ∧ form ≠ .parameter) := by
  unfold Site.declaredBy at h
  split at h
  · cases h
    exact ⟨rfl, .inl rfl⟩
  · split at h
    · next hblock =>
      obtain ⟨table, htable, h⟩ := bind_eq_ok.1 h
      obtain ⟨ds, hreads, hlookup⟩ := Site.readsPlain_declarations htable
      rw [hlookup, pure_eq_ok] at h
      have hd := List.mem_of_find?_eq_some h
      have hname : d.name = name := by simpa using List.find?_some h
      have hplain : (Form.plain, name) ∈ x.bindings := by
        rw [bindings_block hblock]
        exact (hreads.plain name).2 ⟨d, hd, hname⟩
      obtain ⟨form, hform⟩ := exists_boundAs hplain
      have hmem := mem_bindings hform
      rw [bindings_block hblock] at hmem
      exact ⟨hname, .inr ⟨hreads.binding d hd, form, hform, hreads.form _ hmem⟩⟩
    · cases h

end Place

/-! ### The nearest place -/

theorem nearest_append {name : String} {inner outer : List Place} {x : Place} {form : Form} :
    nearest? name (inner ++ x :: outer) = some (inner.length, form) ↔
      (∀ y ∈ inner, y.boundAs name = none) ∧ x.boundAs name = some form := by
  induction inner with
  | nil =>
    rw [List.nil_append, nearest?]
    cases hx : x.boundAs name with
    | some form' => simp
    | none => simp
  | cons y rest ih =>
    rw [List.cons_append, nearest?, List.forall_mem_cons, and_assoc]
    cases hy : y.boundAs name with
    | some form' => simp
    | none => simp [← ih]

/-- The places around a site are the nodes around it. -/
theorem placesFrom_scope (s : Site) (inside above : List Node) :
    (placesFrom s.file inside above).map (·.scope) = Site.enclosing.go s above := by
  induction above generalizing inside with
  | nil => rfl
  | cons n above ih => exact congrArg (_ :: ·) (ih (n :: inside))

/-- The first of some places that has a declaration of a name, and those in front of it. -/
structure FirstDeclares (name : String) (places inner : List Place) (x : Place) (d : Declaration) :
    Prop where
  split : ∃ outer, places = inner ++ x :: outer
  silent : ∀ y ∈ inner, y.scope.declaredBy name = .ok none
  declares : x.scope.declaredBy name = .ok (some d)

namespace FirstDeclares

variable {name : String} {places inner inner' : List Place} {x x' y : Place} {d d' : Declaration}

theorem behind (h : FirstDeclares name places inner x d) (hy : y.scope.declaredBy name = .ok none) :
    FirstDeclares name (y :: places) (y :: inner) x d where
  split := let ⟨outer, hsplit⟩ := h.split; ⟨outer, congrArg (y :: ·) hsplit⟩
  silent := List.forall_mem_cons.2 ⟨hy, h.silent⟩
  declares := h.declares

theorem exists_of_firstSome
    (h : firstSome (·.declaredBy name) (places.map (·.scope)) = .ok (some d)) :
    ∃ inner x, FirstDeclares name places inner x d := by
  induction places with
  | nil => cases h
  | cons y rest ih =>
    rw [List.map_cons, firstSome] at h
    split at h
    · next hy =>
      obtain ⟨inner, x, hfirst⟩ := ih h
      exact ⟨y :: inner, x, hfirst.behind hy⟩
    · exact ⟨[], y, ⟨rest, rfl⟩, List.forall_mem_nil _, h⟩

theorem unique (h : FirstDeclares name places inner x d) (h' : FirstDeclares name places inner' x' d') :
    inner = inner' ∧ x = x' ∧ d = d' := by
  obtain ⟨⟨outer, rfl⟩, hsilent, hdeclares⟩ := h
  obtain ⟨⟨outer', hsplit⟩, hsilent', hdeclares'⟩ := h'
  have hxs : inner = inner' ∧ x = x' := by
    rcases List.append_eq_append_iff.1 hsplit with ⟨rest, hinner, hrest⟩ | ⟨rest, hinner, hrest⟩
    · cases rest with
      | nil =>
        rw [List.append_nil] at hinner
        exact ⟨hinner.symm, (List.cons.inj hrest).1⟩
      | cons y rest =>
        obtain ⟨rfl, -⟩ := List.cons.inj hrest
        cases hdeclares.symm.trans (hsilent' x (by simp [hinner]))
    · cases rest with
      | nil =>
        rw [List.append_nil] at hinner
        exact ⟨hinner, (List.cons.inj hrest).1.symm⟩
      | cons y rest =>
        obtain ⟨rfl, -⟩ := List.cons.inj hrest
        cases hdeclares'.symm.trans (hsilent x' (by simp [hinner]))
  obtain ⟨rfl, rfl⟩ := hxs
  exact ⟨rfl, rfl, Option.some.inj (Except.ok.inj (hdeclares.symm.trans hdeclares'))⟩

/-- What is in front of the declaration binds the name in no form that is read. -/
theorem isRead (h : FirstDeclares name places inner x d) (hy : y ∈ inner) {form : Form}
    (hform : y.boundAs name = some form) : form.isRead = false :=
  y.isRead_of_declaredBy_none (h.silent y hy) hform

/-- The nearest place that binds the name is the one with the declaration if nothing in front of it
is overlooked, and if a parameter is bound there. -/
theorem nearest_iff (h : FirstDeclares name places inner x d) :
    (∃ form, nearest? name places = some (inner.length, form) ∧
        (form = .parameter ↔ d.binding = .parameter)) ↔
      (∀ y ∈ inner, ¬ y.Overlooked name) ∧
        (d.binding = .parameter → x.boundAs name = some .parameter) := by
  obtain ⟨outer, rfl⟩ := h.split
  simp only [nearest_append]
  constructor
  · rintro ⟨form, ⟨hnone, hform⟩, hparameter⟩
    refine ⟨fun y hy ⟨form', hform', _⟩ => ?_, fun hd => ?_⟩
    · rw [hnone y hy] at hform'
      cases hform'
    · rw [hform, hparameter.2 hd]
  · rintro ⟨hclear, hparameter⟩
    have hnone : ∀ y ∈ inner, y.boundAs name = none := by
      intro y hy
      cases hform : y.boundAs name with
      | none => rfl
      | some form => exact absurd ⟨form, hform, h.isRead hy hform⟩ (hclear y hy)
    rcases Place.declaredBy_cases h.declares with ⟨-, hd | ⟨hd, form, hform, hne⟩⟩
    · exact ⟨.parameter, ⟨hnone, hparameter hd⟩, fun _ => hd, fun _ => rfl⟩
    · exact ⟨form, ⟨hnone, hform⟩, fun heq => absurd heq hne, fun heq => absurd heq hd⟩

end FirstDeclares
end Syntax

/-! ### Lookup -/

/-- **Scoped lookup, and how far it goes.** What a name is found to stand for is the declaration of the
nearest node around it that has one, or what that imports. No parameter and no plain declaration is
overlooked on the way, and the declaration is the binding of the name exactly if no binding of another
form is on the way and a parameter is one. -/
theorem scoped_declaration_exact (p : Project) {s : Site} {found : Declaration}
    (h : p.declaration? s = .ok (some found)) :
    ∃ d inner x, FirstDeclares s.text s.places inner x d ∧ d.name = s.text ∧
      p.followImport s.file d = .ok found ∧
      (∀ y ∈ inner, ∀ form, y.boundAs s.text = some form → form.isRead = false) ∧
      ((∃ form, s.lexical? s.text = some (inner.length, form) ∧
          (form = .parameter ↔ d.binding = .parameter)) ↔
        (∀ y ∈ inner, ¬ y.Overlooked s.text) ∧
          (d.binding = .parameter → x.boundAs s.text = some .parameter)) := by
  obtain ⟨d?, hd, h⟩ := bind_eq_ok.1 h
  cases d? with
  | none => cases pure_eq_ok.1 h
  | some d =>
    obtain ⟨_, hfollow, h⟩ := bind_eq_ok.1 h
    cases pure_eq_ok.1 h
    unfold Site.scopedDeclaration? Site.enclosing at hd
    rw [← placesFrom_scope s [s.node]] at hd
    obtain ⟨inner, x, hfirst⟩ := FirstDeclares.exists_of_firstSome hd
    exact ⟨d, inner, x, hfirst, (Place.declaredBy_cases hfirst.declares).1, hfollow,
      fun y hy form hform => hfirst.isRead hy hform, hfirst.nearest_iff⟩

/-! ### Three programs -/

/-- The constant `a` and a statement with `probe(a)` in its block. -/
def shadowedProbe (statement : Node → Node) : Node :=
  .tree .program none
    [constantNode "" "a" (.leaf .number none " " "1"),
     statement (.tree .statementBlock (some .body)
       [.token none " " "\x7b", probeNode (.leaf .identifier none "" "a"), .token none " " "\x7d"])]

/-- A function of one parameter. -/
def functionAround (parameter : List Node) (body : Node) : Node :=
  .tree .functionDeclaration none
    [.token none "\n" "function", .leaf .identifier (some .name) " " "f",
     .tree .formalParameters (some .parameters)
       [.token none "" "(", .tree .requiredParameter none parameter, .token none "" ")"],
     body]

/-- A loop over a list with one number. -/
def loopAround (body : Node) : Node :=
  .tree .forInStatement none
    [.token none "\n" "for", .token none " " "(", .token (some .kind) "" "const",
     .leaf .identifier (some .left) " " "a", .token (some .operator) " " "of",
     .tree .array (some .right)
       [.token none " " "[", .leaf .number none "" "2", .token none "" "]"],
     .token none "" ")", body]

def parameterProbe : Node := shadowedProbe (functionAround [.leaf .identifier (some .pattern) "" "a"])

theorem parameter_found :
    parse .plain "const a = 1;\nfunction f(a) \x7b\nprobe(a); \x7d" = parameterProbe ∧
    ∃ s d, firstArgument? parameterProbe = some s ∧ bareProject.declaration? s = .ok (some d) ∧
      d.binding = .parameter ∧ s.lexical? s.text = some (4, .parameter) := by
  obtain ⟨s, d, inner, x, outer, hs, hd, hbinding, hlength, hsplit, hsilent, hx, hfree, hparameter⟩ :
      ∃ s d inner x outer, firstArgument? parameterProbe = some s ∧
        bareProject.declaration? s = .ok (some d) ∧ d.binding = .parameter ∧ inner.length = 4 ∧
        s.places = inner ++ x :: outer ∧ (∀ y ∈ inner, y.scope.declaredBy s.text = .ok none) ∧
        x.scope.declaredBy s.text = .ok (some d) ∧ (∀ y ∈ inner, y.boundAs s.text = none) ∧
        x.boundAs s.text = some .parameter :=
    ⟨_, _, [_, _, _, _], _, _, rfl, rfl, rfl, rfl, rfl, List.map_eq_replicate_iff.1 rfl, rfl,
      List.map_eq_replicate_iff.1 rfl, rfl⟩
  have hhere : FirstDeclares s.text s.places inner x d := ⟨⟨outer, hsplit⟩, hsilent, hx⟩
  obtain ⟨_, _, _, hfirst, -, -, -, hexact⟩ := scoped_declaration_exact bareProject hd
  obtain ⟨rfl, rfl, rfl⟩ := hhere.unique hfirst
  have hclear : ∀ y ∈ inner, ¬ y.Overlooked s.text := fun y hy ⟨_, hform, _⟩ => by
    cases (hfree y hy).symm.trans hform
  obtain ⟨form, hlexical, hform⟩ := hexact.2 ⟨hclear, fun _ => hparameter⟩
  rw [hlength, hform.2 hbinding] at hlexical
  exact ⟨by decide +kernel, s, d, hs, hd, hbinding, hlexical⟩

def mentionProbe : Node :=
  shadowedProbe (functionAround
    [.leaf .identifier (some .pattern) "" "x", .token none " " "=",
     .leaf .identifier (some .value) " " "a"])

def loopProbe : Node := shadowedProbe loopAround

/-- A name in the default of a parameter is taken for a parameter, and the variable of a loop is
overlooked. -/
theorem nearest_binding_missed :
    parse .plain "const a = 1;\nfunction f(x = a) \x7b\nprobe(a); \x7d" = mentionProbe ∧
    (∃ s d inner x, firstArgument? mentionProbe = some s ∧ bareProject.declaration? s = .ok (some d) ∧
      FirstDeclares s.text s.places inner x d ∧ d.binding = .parameter ∧
      s.lexical? s.text = some (inner.length + 1, .plain)) ∧
    parse .plain "const a = 1;\nfor (const a of [2]) \x7b\nprobe(a); \x7d" = loopProbe ∧
    ∃ s d inner x, firstArgument? loopProbe = some s ∧ bareProject.declaration? s = .ok (some d) ∧
      FirstDeclares s.text s.places inner x d ∧ inner.length = 5 ∧
      s.lexical? s.text = some (4, .loop) := by
  refine ⟨by decide +kernel, ⟨_, _, [_, _, _, _], _, rfl, rfl, ⟨⟨_, rfl⟩, ?_, rfl⟩, rfl, rfl⟩,
    by decide +kernel, ⟨_, _, [_, _, _, _, _], _, rfl, rfl, ⟨⟨_, rfl⟩, ?_, rfl⟩, rfl, rfl⟩⟩
  · exact List.map_eq_replicate_iff.1 rfl
  · exact List.map_eq_replicate_iff.1 rfl

end SettingsHarvest
