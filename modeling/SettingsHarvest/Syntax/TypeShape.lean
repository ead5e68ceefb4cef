import SettingsHarvest.Syntax.Site

/-! What a written type says about a value.

Only five answers matter: boolean, text, number, list, or a component to be rendered. A union gives
the answer its members agree on, `null` and `undefined` left aside. -/
namespace SettingsHarvest.Syntax

inductive TypeShape where
  | boolean | string | number | array | component
  deriving DecidableEq

def TypeShape.name : TypeShape → String
  | boolean => "boolean"
  | string => "string"
  | number => "number"
  | array => "array"
  | component => "component"

namespace Node

/-- Types of values that are rendered rather than stored. -/
def componentTypeNames : List String :=
  ["Component", "ComponentType", "FC", "FunctionComponent", "ReactNode", "ReactElement", "Element"]

/-- The part of a name behind its last dot. -/
def lastSegment (s : String) : String :=
  String.ofList (s.toList.reverse.takeWhile (· != '.')).reverse

/-- The plain name of a named type; a generic type has the name of what it is applied to. -/
def plainTypeName? (n : Node) : Option String :=
  let simple (m : Node) : Option String := match m.kind? with
    | some .typeIdentifier | some .identifier => some m.text
    | some .nestedTypeIdentifier => some (lastSegment m.text)
    | _ => none
  match n.kind? with
  | some .genericType => (n.part? .name).bind simple
  | _ => simple n

def shapeOfName (n : Node) : Option TypeShape :=
  match n.plainTypeName? with
  | some t =>
    if t == "Array" || t == "ReadonlyArray" then some .array
    else if componentTypeNames.contains t then some .component
    else none
  | none => none

def shapeOfLiteral (n : Node) : Option TypeShape :=
  match n.named.head?.bind kind? with
  | some .string => some .string
  | some .number => some .number
  | some .trueLiteral | some .falseLiteral => some .boolean
  | _ => none

/-- The one answer of a list of answers that all agree. -/
def agreed : List (Option TypeShape) → Option TypeShape
  | [] => none
  | s :: rest => if rest.all (· == s) then s else none

mutual
/-- What a type says. -/
def typeShape? : Node → Option TypeShape
  | .token .. => none
  | .leaf k r b t => match k with
    | .predefinedType => match t with
      | "boolean" => some .boolean
      | "string" => some .string
      | "number" | "bigint" => some .number
      | _ => none
    | _ => shapeOfName (.leaf k r b t)
  | .tree k r parts => match k with
    | .typeAscription | .parenthesizedType => shapeOfFirst parts
    | .literalType => shapeOfLiteral (.tree k r parts)
    | .arrayType | .tupleType | .readonlyType => some .array
    | .unionType => agreed (shapesOfMembers parts)
    | _ => shapeOfName (.tree k r parts)

/-- What the first named part says. -/
def shapeOfFirst : List Node → Option TypeShape
  | [] => none
  | p :: rest => if p.isNamedPart then typeShape? p else shapeOfFirst rest

/-- What the members of a union say, `null` and `undefined` left out. -/
def shapesOfMembers : List Node → List (Option TypeShape)
  | [] => []
  | p :: rest =>
    if p.isNamedPart && p.text != "null" && p.text != "undefined" then
      typeShape? p :: shapesOfMembers rest
    else shapesOfMembers rest
end

/-- What the elements of a list type are: one of the five, or some other object. -/
inductive ElementShape where
  | known (s : TypeShape)
  | object
  deriving DecidableEq

def ElementShape.name : ElementShape → String
  | known s => s.name
  | object => "object"

def elementOf (n : Node) : ElementShape :=
  match n.typeShape? with
  | some s => .known s
  | none => .object

mutual
/-- For a list type, what its elements are. -/
def elementShape? : Node → Option ElementShape
  | .token .. => none
  | .leaf .. => none
  | .tree k r parts => match k with
    | .typeAscription | .readonlyType => elementShapeOfFirst parts
    | .arrayType => (Node.tree k r parts).named.head?.map elementOf
    | .genericType =>
      let n := Node.tree k r parts
      if n.plainTypeName? == some "Array" || n.plainTypeName? == some "ReadonlyArray" then
        (n.part? .typeArguments).bind fun a => a.named.head?.map elementOf
      else none
    | _ => none

def elementShapeOfFirst : List Node → Option ElementShape
  | [] => none
  | p :: rest => if p.isNamedPart then elementShape? p else elementShapeOfFirst rest
end

/-- The type written behind `as` or `satisfies`. -/
def assertedType? (n : Node) : Option Node :=
  if n.hasKind .asExpression || n.hasKind .satisfiesExpression then n.named[1]? else none

mutual
/-- What the assertions around an expression say, the outermost that says anything first. -/
def assertedShape? : Node → Option TypeShape
  | .token .. => none
  | .leaf .. => none
  | .tree k r parts =>
    match (Node.tree k r parts).assertedType?.bind typeShape? with
    | some s => some s
    | none =>
      if k == .asExpression || k == .satisfiesExpression || k == .parenthesizedExpression then
        assertedShapeOfFirst parts
      else none

def assertedShapeOfFirst : List Node → Option TypeShape
  | [] => none
  | p :: rest => if p.isNamedPart then assertedShape? p else assertedShapeOfFirst rest
end

end Node

/-- What the types around an expression say: assertions first, then the type of the variable it
initializes. -/
def Site.declaredShape? (s : Site) : Option TypeShape :=
  match s.node.assertedShape? with
  | some t => some t
  | none => match s.parent? with
    | some p =>
      if p.hasKind .variableDeclarator then (p.node.part? .type).bind Node.typeShape? else none
    | none => none

end SettingsHarvest.Syntax
