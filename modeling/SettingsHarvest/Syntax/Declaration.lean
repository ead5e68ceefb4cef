import SettingsHarvest.Syntax.Literal
import SettingsHarvest.Syntax.Search
import SettingsHarvest.Value

/-! What names a file or a block declares.

A `Declaration` is a name, the place that declares it, and what it is bound to. `declarations` reads
the statements directly inside a program or block, looking through `export` and `declare`; names
taken apart by a pattern are not among them. `exports` is what other files can import, under the
name they import it by. -/
namespace SettingsHarvest.Syntax

/-- What a declaration binds its name to. -/
inductive Binding where
  /-- A variable, with its initializer. -/
  | variable (value : Option Site)
  | enumeration
  | function
  | classDefinition
  /-- A name that another file exports. -/
  | imported (source name : String)
  /-- All the exports of another file. -/
  | namespace (source : String)
  | parameter

structure Declaration where
  name : String
  /-- The node that declares the name. -/
  site : Site
  binding : Binding

namespace Declaration

/-- The expression the name stands for, where the declaration gives one. -/
def value? (d : Declaration) : Option Site :=
  match d.binding with
  | .variable v => v
  | .function => some d.site
  | _ => none

end Declaration

/-- Names with what they stand for, the first entry of a name before any later one. -/
abbrev NameTable := List (String × Declaration)

namespace NameTable

def lookup? (t : NameTable) (name : String) : Option Declaration :=
  (List.find? (fun e => e.1 == name) t).map (·.2)

/-- Adds an entry unless the name has one. -/
def offer (t : NameTable) (name : String) (d : Declaration) : NameTable :=
  if (t.lookup? name).isSome then t else t ++ [(name, d)]

def offerAll (t : NameTable) (ds : List Declaration) : NameTable :=
  ds.foldl (fun t d => t.offer d.name d) t

end NameTable

namespace Site

/-! ### Statements -/

mutual
/-- The declaring statement behind `export` and `declare`, with the nodes around it. -/
def declaring (above : List Node) : Node → Option (List Node × Node)
  | .token .. => none
  | .leaf k r b t => some (above, .leaf k r b t)
  | .tree k r parts =>
    if k == .exportStatement || k == .ambientDeclaration then
      let here := Node.tree k r parts :: above
      if parts.any (·.role? == some .declaration) then declaringInRole here parts
      else declaringFirst here parts
    else some (above, .tree k r parts)

/-- The same for the part in the role of a declaration. -/
def declaringInRole (above : List Node) : List Node → Option (List Node × Node)
  | [] => none
  | p :: rest =>
    if p.role? == some .declaration then declaring above p else declaringInRole above rest

/-- The same for the first part that is a declaration by its kind. -/
def declaringFirst (above : List Node) : List Node → Option (List Node × Node)
  | [] => none
  | p :: rest =>
    if p.kind?.any Kind.isDeclaration then declaring above p else declaringFirst above rest
end

def declaringStatement? (s : Site) : Option Site :=
  (declaring s.above s.node).map fun (above, node) => ⟨s.file, above, node⟩

/-- The variables of a declaration that are plain names. -/
def plainVariables (statement : Site) : List Declaration :=
  statement.named.filterMap fun d =>
    if d.hasKind .variableDeclarator then
      match d.part? .name with
      | some n => if n.hasKind .identifier then some ⟨n.text, d, .variable (d.part? .value)⟩ else none
      | none => none
    else none

/-- What one part of an import clause binds. -/
def importsOf (source : String) (item : Site) : List Declaration :=
  match item.kind? with
  | some .identifier => [⟨item.text, item, .imported source "default"⟩]
  | some .namespaceImport => match item.named.getLast? with
    | some name => [⟨name.text, item, .namespace source⟩]
    | none => []
  | some .namedImports => item.named.filterMap fun specifier =>
    if specifier.hasKind .importSpecifier then
      (specifier.part? .name).map fun name =>
        ⟨((specifier.part? .rename).getD name).text, specifier, .imported source name.text⟩
    else none
  | _ => []

/-- What an import binds. -/
def imports (statement : Site) : Attempt (List Declaration) :=
  match statement.part? .source with
  | none => .ok []
  | some source => do
    let path ← source.stringValue
    return (statement.named.filter (·.hasKind .importClause)).flatMap fun clause =>
      clause.named.flatMap (importsOf path)

/-- A declaration under the name that a node carries in its role. -/
def byName (statement : Site) (binding : Binding) : List Declaration :=
  match statement.part? .name with
  | some n => [⟨n.text, statement, binding⟩]
  | none => []

/-- What a statement declares in the scope it stands in. -/
def statementDeclarations (statement : Site) : Attempt (List Declaration) :=
  match statement.declaringStatement? with
  | none => .ok []
  | some s => match s.kind? with
    | some .lexicalDeclaration | some .variableDeclaration => .ok s.plainVariables
    | some .enumDeclaration => .ok (s.byName .enumeration)
    | some .functionDeclaration | some .generatorFunctionDeclaration => .ok (s.byName .function)
    | some .classDeclaration | some .abstractClassDeclaration => .ok (s.byName .classDefinition)
    | some .importStatement => s.imports
    | _ => .ok []

/-! ### Tables -/

/-- The names declared directly in a program or block; the first declaration of a name counts. -/
def declarations (scope : Site) : Attempt NameTable := do
  return NameTable.offerAll [] (← scope.named.mapM statementDeclarations).flatten

/-- What the clauses of an export list add: names that the file declares. -/
def clauseExports (declared exported : NameTable) (statement : Site) : NameTable :=
  (statement.named.filter (·.hasKind .exportClause)).foldl (fun t clause =>
    clause.named.foldl (fun t specifier =>
      match specifier.part? .name with
      | none => t
      | some name => match declared.lookup? name.text with
        | some d => t.offer ((specifier.part? .rename).getD name).text d
        | none => t) t) exported

/-- What an export statement adds to the exports before it; a later default takes the place of an
earlier one. -/
def statementExports (declared exported : NameTable) (statement : Site) : Attempt NameTable :=
  match statement.part? .declaration with
  | some inner => do return exported.offerAll (← inner.statementDeclarations)
  | none => match statement.part? .value with
    | some value =>
      .ok (assign "default" ⟨"default", statement, .variable (some value)⟩ exported)
    | none => .ok (clauseExports declared exported statement)

/-- The exported names of a program. -/
def exports (program : Site) : Attempt NameTable := do
  let declared ← program.declarations
  (program.named.filter (·.hasKind .exportStatement)).foldlM (statementExports declared) []

/-! ### Scopes -/

/-- The variables of a name declared anywhere below, in the order of the document. -/
def declaratorsOf (s : Site) (name : String) : List Site :=
  s.visited.filter fun d => d.hasKind .variableDeclarator
    && (d.part? .name).any fun n => n.hasKind .identifier && n.text == name

theorem declaratorsOf_eq (s : Site) (name : String) :
    s.declaratorsOf name = s.walk.filter fun d => d.hasKind .variableDeclarator
      && (d.part? .name).any fun n => n.hasKind .identifier && n.text == name := by
  rw [declaratorsOf, visited_eq_walk]

/-- Whether a function takes a name as parameter, or mentions it among its parameters. -/
def bindsParameter (function : Site) (name : String) : Bool :=
  match function.part? .parameter with
  | some p => p.text == name
  | none => match function.part? .parameters with
    | none => false
    | some ps => ps.node.walk.any fun n =>
      (n.hasKind .identifier || n.hasKind .shorthandPropertyIdentifierPattern) && n.text == name

/-- What one enclosing node says about a name. -/
def declaredBy (scope : Site) (name : String) : Attempt (Option Declaration) :=
  if scope.isFunction && scope.bindsParameter name then
    .ok (some ⟨name, scope, .parameter⟩)
  else if scope.hasKind .program || scope.hasKind .statementBlock then do
    return (← scope.declarations).lookup? name
  else .ok none

/-- What the nearest enclosing scope that knows a name says about it. -/
def scopedDeclaration? (s : Site) (name : String) : Attempt (Option Declaration) :=
  firstSome (·.declaredBy name) s.enclosing

/-- The program a site is part of. -/
def program (s : Site) : Site := s.enclosing.getLast?.getD s

end Site
end SettingsHarvest.Syntax
