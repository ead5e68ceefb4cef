import SettingsHarvest.Choices
import SettingsHarvest.Setting
import SettingsHarvest.Syntax.TypeShape

/-! What a default shows without being run.

The type of a setting and its default are decided from the same few observations: whether the default
is there at all, whether it is a constant, what sort of thing it is otherwise, and what the types
around it say. `Project.inspectDefault` makes them all, and the `Evidence` it answers is all that
classification looks at. -/
namespace SettingsHarvest
open Syntax

/-- The sorts of default. -/
inductive Shape where
  | absent
  | getter
  | null
  | literal
  | array
  | object
  | renderer
  | call
  | unresolved
  | other
  deriving DecidableEq

namespace Shape

def all : List Shape :=
  [absent, getter, null, literal, array, object, renderer, call, unresolved, other]

def name : Shape → String
  | absent => "absent"
  | getter => "getter"
  | null => "null"
  | literal => "literal"
  | array => "array"
  | object => "object"
  | renderer => "renderer"
  | call => "call"
  | unresolved => "unresolved"
  | other => "other"

end Shape

structure Evidence where
  /-- The expression of the default, wrappers kept. -/
  initializer : Option Site := none
  /-- Its value, if it is a constant. -/
  literal : Option Value := none
  shape : Shape := .absent
  stringArray : Bool := false
  objectArray : Bool := false
  emptyTypedArray : Bool := false
  identifier : Bool := false
  identifierDeclared : Bool := false
  identifierIsArray : Bool := false
  getter : Bool := false
  declaredShape : Option TypeShape := none

/-- Whether the default is an empty list literal. -/
def Evidence.isEmptyArray (e : Evidence) : Bool :=
  match e.initializer with
  | some s => s.unwrap.hasKind .array && s.unwrap.named.isEmpty
  | none => false

namespace Syntax.Site

/-- Something that is rendered when called or by itself. -/
def isRenderer (s : Site) : Bool :=
  s.isFunction || s.hasKind .jsxElement || s.hasKind .jsxSelfClosingElement
    || s.hasKind .classExpression

/-- `null` or `undefined`, however wrapped. -/
def isNull (s : Site) : Bool :=
  let s := s.unwrap
  s.hasKind .nullLiteral || s.hasKind .undefinedLiteral
    || (s.hasKind .identifier && s.text == "undefined")

/-- Forms whose shape is all that is asked for. -/
def isStructural (s : Site) : Bool :=
  s.hasKind .array || s.hasKind .object || s.hasKind .callExpression || s.hasKind .newExpression
    || s.hasKind .nullLiteral || s.isRenderer

/-! ### Lists -/

/-- A list of texts: a type asserted of the list decides, and otherwise its elements. -/
def isStringArray (s : Site) : Bool :=
  let inner := s.unwrap
  inner.hasKind .array && match s.node.assertedType? with
    | some t => t.elementShape? == some (.known .string)
    | none => inner.named.all (·.unwrap.hasKind .string)

/-- A list of object literals that no asserted type makes something else. -/
def isObjectArray (s : Site) : Bool :=
  let inner := s.unwrap
  let denied := match s.node.assertedType? with
    | some t => t.elementShape?.isNone
    | none => false
  inner.hasKind .array && !denied && !inner.named.isEmpty
    && inner.named.all (·.unwrap.hasKind .object)

end Syntax.Site

namespace Project

/-! ### Calls -/

/-- The function of the file that a call calls by name. -/
def calledFunction? (p : Project) (call : Site) : Attempt (Option Site) :=
  match call.callee?.map Site.unwrap with
  | none => .ok none
  | some callee =>
    if callee.hasKind .identifier then do
      return ((← p.initializer? callee).map Site.unwrap).filter Site.isFunction
    else .ok none

/-- The expression that a called function answers. -/
def calledBody? (p : Project) (call : Site) : Attempt (Option Site) := do
  return (← p.calledFunction? call).bind fun f => f.bodyExpression?.map Site.unwrap

/-- The shapes of what methods of `Object` and `Array` answer. -/
def builtinShape? (callee : String) : Option Shape :=
  if callee.startsWith "Object." then
    let method := String.ofList (callee.toList.drop 7)
    if ["fromEntries", "assign", "create"].contains method then some .object
    else if ["keys", "values", "entries"].contains method then some .array
    else none
  else if callee.startsWith "Array." then some .array
  else none

/-- The shape of what a call answers, when it is a list or an object. -/
def callShape? (p : Project) (call : Site) : Attempt (Option Shape) := do
  let builtin := call.callee?.bind fun c => builtinShape? c.text
  match ← p.calledBody? call with
  | some body =>
    return if body.hasKind .object then some .object
      else if body.hasKind .array then some .array
      else builtin
  | none => return builtin

/-! ### Observations -/

/-- The value of a default that is a constant. -/
def scalarLiteral? (p : Project) (init : Site) : Attempt (Option Value) :=
  if init.unwrap.isStructural || init.isNull then .ok none
  else do return valueOf? (← p.evaluate init [])

/-- The shape of an expression that a name leads to. -/
def denotedShape (p : Project) (s : Site) : Attempt Shape := do
  match ← p.denoted? s with
  | none => return .unresolved
  | some found =>
    if found.hasKind .callExpression then return (← p.callShape? found).getD .call
    else if found.hasKind .array then return .array
    else if found.hasKind .object then return .object
    else if found.isRenderer then return .renderer
    else return .unresolved

def shapeOf (p : Project) (init : Site) (literal : Option Value) : Attempt Shape := do
  if literal.isSome then return .literal
  if init.isNull then return .null
  let s := init.unwrap
  if s.hasKind .array then return .array
  if s.hasKind .object then return .object
  if s.isRenderer then return .renderer
  if s.hasKind .callExpression then
    if (s.firstArgument?.map Site.unwrap).any (·.hasKind .object) then return .object
    return (← p.callShape? s).getD .call
  if s.hasKind .identifier || s.hasKind .memberExpression then p.denotedShape s
  else return .other

/-- Whether the default is, or names, a list of texts. -/
def isStringArrayDefault (p : Project) (init : Site) : Attempt Bool :=
  if init.unwrap.hasKind .identifier then do
    return (← p.initializer? init.unwrap).any Site.isStringArray
  else .ok init.isStringArray

/-- Whether the default is a list of objects: written there, named, or answered by a function. -/
def isObjectArrayDefault (p : Project) (init : Site) : Attempt Bool := do
  let s := init.unwrap
  if s.hasKind .array then return init.isObjectArray
  if s.hasKind .callExpression then return (← p.calledBody? s).any Site.isObjectArray
  if s.hasKind .identifier then return (← p.initializer? s).any Site.isObjectArray
  return false

/-- Whether the default is an empty list with a type, or a call of a function that answers an empty
list or one of objects and calls. -/
def isEmptyTypedArrayDefault (p : Project) (init : Site) : Attempt Bool := do
  let s := init.unwrap
  if s.hasKind .array then
    return (init.node.assertedType?.bind Node.elementShape?).isSome && s.named.isEmpty
  if s.hasKind .callExpression then
    return (← p.calledBody? s).any fun body => body.hasKind .array && body.named.all fun e =>
      e.unwrap.hasKind .object || e.unwrap.hasKind .callExpression
  return false

/-- What the types around a default, or around the variable it names, say. -/
def declaredShapeOf (p : Project) (init : Site) : Attempt (Option TypeShape) :=
  match init.declaredShape? with
  | some t => .ok (some t)
  | none =>
    if init.unwrap.hasKind .identifier then do
      match ← p.declaration? init.unwrap with
      | some ⟨_, site, .variable value⟩ => match site.node.part? .type with
        | some type => return type.typeShape?
        | none => return value.bind Site.declaredShape?
      | _ => return none
    else .ok none

/-- The evidence of a default that is an expression. -/
def inspectInitializer (p : Project) (init : Site) : Attempt Evidence := do
  let s := init.unwrap
  let literal ← p.scalarLiteral? init
  let identifier := s.hasKind .identifier && !s.isNull
  let declared ← if identifier then
      do pure ((← p.declaration? s).isSome || (initializerBySpelling? s).isSome)
    else pure false
  let isArray ← if identifier then do pure ((← p.denoted? s).any (·.hasKind .array))
    else pure false
  let shape ← p.shapeOf init literal
  let stringArray ← p.isStringArrayDefault init
  let objectArray ← p.isObjectArrayDefault init
  let emptyTypedArray ← p.isEmptyTypedArrayDefault init
  let declaredShape ← if literal.isNone then p.declaredShapeOf init else pure none
  return ⟨some init, literal, shape, stringArray, objectArray, emptyTypedArray, identifier,
    declared, isArray, false, declaredShape⟩

/-- The evidence of a setting's default. -/
def inspectDefault (p : Project) (setting : Site) : Attempt Evidence := do
  if (← setting.getter? "default").isSome then
    return { shape := .getter, getter := true }
  match ← setting.memberValue? "default" with
  | none => return {}
  | some init => p.inspectInitializer init

end Project
end SettingsHarvest
