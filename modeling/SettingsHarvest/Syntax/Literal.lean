import SettingsHarvest.Syntax.Site
import SettingsHarvest.Text.Escape

/-! String literals, object literals and calls.

A member of an object literal has a key when the source spells it: a word, a quoted text or a
numeral, but not a computed one. Reading a quoted key can fail, so the searches below stop at the
first member that answers them. -/
namespace SettingsHarvest.Syntax

/-- The first answer among items, none of the later ones looked at. -/
def firstSome {α β : Type} (f : α → Attempt (Option β)) : List α → Attempt (Option β)
  | [] => .ok none
  | a :: rest => match f a with
    | .ok none => firstSome f rest
    | answer => answer

namespace Site

/-! ### Strings -/

/-- The text a string, or a template without gaps, denotes. -/
def stringValue (s : Site) : Attempt String := (Text.decode s.literalBody).map String.ofList

def hasSubstitutions (s : Site) : Bool := s.node.parts.any (·.hasKind .templateSubstitution)

/-- A string, or a template without gaps. -/
def isStringLiteral (s : Site) : Bool :=
  s.hasKind .string || (s.hasKind .templateString && !s.hasSubstitutions)

def isTrue (s : Site) : Bool := s.unwrap.hasKind .trueLiteral

/-! ### Members -/

/-- The key a member is spelled with. -/
def memberKey? (member : Site) : Attempt (Option String) :=
  match (member.part? .key).or (member.part? .name) with
  | none => .ok none
  | some key => match key.kind? with
    | some .propertyIdentifier | some .identifier | some .privatePropertyIdentifier
    | some .number => .ok (some key.text)
    | some .string => key.stringValue.map some
    | _ => .ok none

/-- The members of the form `key: value`, with their keys. -/
def pairs (object : Site) : Attempt (List (String × Site)) := do
  let found ← (object.named.filter (·.hasKind .pair)).mapM fun p =>
    return (← p.memberKey?).map fun key => (key, p)
  return found.filterMap id

/-- The value of a pair. -/
def pairValue? (pair : Site) : Option Site := pair.part? .value

/-- The value of the first pair with a key. -/
def propertyValue? (object : Site) (key : String) : Attempt (Option Site) :=
  if object.hasKind .object then
    firstSome (fun p => do
      if (← p.memberKey?) == some key then return p.pairValue? else return none)
      (object.named.filter (·.hasKind .pair))
  else .ok none

def isShorthand (member : Site) (name : String) : Bool :=
  member.hasKind .shorthandPropertyIdentifier && member.text == name

/-- The value of a member: that of a pair, or the name itself where it is written alone. -/
def memberValue? (object : Site) (key : String) : Attempt (Option Site) := do
  match ← object.propertyValue? key with
  | some v => return some v
  | none =>
    if object.hasKind .object then return object.named.find? (·.isShorthand key) else return none

/-- Whether an object literal declares a member in any form. -/
def hasMember (object : Site) (key : String) : Attempt Bool :=
  if object.hasKind .object then do
    let found ← firstSome (fun m => do
      if m.isShorthand key then return some ()
      else if m.hasKind .pair || m.hasKind .methodDefinition then
        if (← m.memberKey?) == some key then return some () else return none
      else return none) object.named
    return found.isSome
  else .ok false

def isGetter (member : Site) : Bool :=
  member.hasKind .methodDefinition
    && member.node.parts.any fun p => p.kind?.isNone && p.text == "get"

/-- The accessor `get key() …` of an object literal. -/
def getter? (object : Site) (key : String) : Attempt (Option Site) :=
  if object.hasKind .object then
    firstSome (fun m => do
      if m.isGetter then
        if (← m.memberKey?) == some key then return some m else return none
      else return none) object.named
  else .ok none

/-! ### Calls -/

def callee? (call : Site) : Option Site := call.part? .function

/-- The arguments of a call; the parts of the template where a template is the argument. -/
def callArguments (call : Site) : List Site :=
  match call.part? .arguments with
  | some args => args.named
  | none => []

/-- The object and the name of a member access. -/
def accessParts? (access : Site) : Option (Site × String) :=
  match access.part? .object, access.part? .property with
  | some object, some property => some (object, property.text)
  | _, _ => none

/-- Whether a site is a call of a method by name. -/
def isMethodCall (call : Site) (method : String) : Bool :=
  call.hasKind .callExpression && match call.callee? with
    | some callee => callee.hasKind .memberExpression
      && (callee.part? .property).any (·.text == method)
    | none => false

/-- Whether a site is a call of a method on a plain name, as in `Object.keys(x)`. -/
def isMethodCallOn (call : Site) (receiver method : String) : Bool :=
  call.isMethodCall method && match call.callee?.bind (·.part? .object) with
    | some object => object.hasKind .identifier && object.text == receiver
    | none => false

/-- The object a method is called on. -/
def receiver? (call : Site) : Option Site :=
  match call.callee? with
  | some callee => if callee.hasKind .memberExpression then callee.part? .object else none
  | none => none

/-! ### Functions -/

def isFunction (s : Site) : Bool := s.kind?.any Kind.isFunction

/-- The names of the parameters, when all of them are plain names. -/
def parameterNames? (function : Site) : Option (List String) :=
  match function.part? .parameter with
  | some p => if p.hasKind .identifier then some [p.text] else none
  | none => match function.part? .parameters with
    | none => some []
    | some params => params.named.mapM fun p =>
      let pattern := if p.hasKind .identifier then some p else p.part? .pattern
      match pattern with
      | some q => if q.hasKind .identifier then some q.text else none
      | none => none

/-- The expression a function answers: its body, or what its first statement returns. -/
def bodyExpression? (function : Site) : Option Site :=
  match function.part? .body with
  | none => none
  | some body =>
    if body.hasKind .statementBlock then
      match body.named.head? with
      | some first => if first.hasKind .returnStatement then first.named.head? else none
      | none => none
    else some body

end Site
end SettingsHarvest.Syntax
