import SettingsHarvest.Evidence
import SettingsHarvest.OptionType

/-! The default of a setting.

A constant default is the default, whatever the type. Otherwise the type decides: lists are empty, a
choice takes the option marked as default or else the first one, and a text without a usable default
becomes one that can be null. On the way the type itself may be refined, so `resolveDefault` answers
a type along with the default.

An option is marked by `default: true`, or in a callback by a comparison that holds for it. -/
namespace SettingsHarvest
open Syntax

/-- A type and the default that goes with it. -/
abbrev Resolution := TargetType × Option Value

namespace Project

/-! ### Markers -/

/-- Whether an operator compares, and if so whether for equality. -/
def comparison? (operator : String) : Option Bool :=
  if operator == "===" || operator == "==" then some true
  else if operator == "!==" || operator == "!=" then some false
  else none

/-- Whether a comparison holds under bindings; one without a value on some side does not. -/
def comparisonHolds (p : Project) (marker : Site) (b : Bindings) : Attempt Bool :=
  match comparison? (operatorText marker) with
  | none => .ok false
  | some equal => do
    let left ← partValue p.evaluate b marker .left
    let right ← partValue p.evaluate b marker .right
    match left, right with
    | .ok x, .ok y => return x.agrees y == equal
    | _, _ => return false

/-- Whether a marker is set for one option. -/
def markerHolds (p : Project) (marker : Site) (b : Bindings) : Attempt Bool :=
  let marker := marker.unwrap
  if marker.hasKind .trueLiteral then .ok true
  else if marker.hasKind .binaryExpression then p.comparisonHolds marker b
  else .ok false

/-- The side of an equality that is a constant, the right one first. -/
def comparisonConstant? (p : Project) (marker : Site) : Attempt (Option Value) :=
  let marker := marker.unwrap
  if marker.hasKind .binaryExpression && comparison? (operatorText marker) == some true then do
    match ← partValue p.evaluate [] marker .right with
    | .ok v => return some v
    | .error _ => return valueOf? (← partValue p.evaluate [] marker .left)
  else .ok none

/-- The value of an option object, under bindings. -/
def optionValue? (p : Project) (object : Site) (b : Bindings) : Attempt (Option Value) := do
  match ← object.memberValue? "value" with
  | some v => return valueOf? (← p.evaluate v b)
  | none => return none

/-- The value of an option object marked `default: true`. -/
def markedValue? (p : Project) (object : Site) : Attempt (Option Value) := do
  if (← object.memberValue? "default").any Site.isTrue then p.optionValue? object []
  else return none

/-- The value of the first marked option among elements; `inside` looks into lists spread in. -/
def markedAmong (p : Project) (inside : Site → Attempt (Option Value)) :
    List Site → Attempt (Option Value) :=
  firstSome fun e =>
    let e := e.unwrap
    if e.hasKind .spreadElement then do
      let source ← match e.spreadSource? with
        | some s => p.array? s
        | none => pure none
      match source with
      | some list => inside list
      | none => return none
    else if e.hasKind .object then p.markedValue? e
    else .ok none

/-- The value of the marked option of a list, one level of spreads followed. -/
def markerInList? (p : Project) (list : Site) : Attempt (Option Value) :=
  p.markedAmong (fun inner => p.markedAmong (fun _ => .ok none) inner.named) list.named

/-- The value of the first option a callback marks. -/
def firstMarked? (p : Project) (body marker : Site) (b : Bindings) : Attempt (Option Value) := do
  if ← p.markerHolds marker b then p.optionValue? body b else return none

/-- The first key of the object that `Object.keys` is called on. -/
def firstKey? (p : Project) (receiver : Option Site) : Attempt (Option Value) := do
  match (receiver.filter (·.isMethodCallOn "Object" "keys")).bind (·.firstArgument?) with
  | none => return none
  | some a => match ← p.object? a with
    | none => return none
    | some table =>
      firstSome (fun pair => do return (← pair.memberKey?).map .text)
        (table.named.filter (·.hasKind .pair))

/-- The value of the option that a `.map` marks: the first its marker holds for, else the constant
the marker compares with, else the first key. -/
def markerInMap? (p : Project) (call : Site) : Attempt (Option Value) := do
  match ← p.mapCallback? call with
  | none => return none
  | some callback => match callbackObject? callback with
    | none => return none
    | some body => match ← body.memberValue? "default" with
      | none => return none
      | some marker =>
        let receiver ← match call.receiver? with
          | some r => p.denoted? r
          | none => pure none
        let elements := (← p.mapElements call.receiver?).getD []
        let parameters := callback.parameterNames?.getD []
        let marked ← firstSome (p.firstMarked? body marker) (elementBindings parameters elements)
        match marked with
        | some v => return some v
        | none => match ← p.comparisonConstant? marker with
          | some v => return some v
          | none => p.firstKey? receiver

/-- The value of the option of a setting that is marked as default. -/
def defaultMarker? (p : Project) (setting : Site) : Attempt (Option Value) := do
  match ← setting.memberValue? "options" with
  | none => return none
  | some options =>
    let e ← p.optionsExpression options
    if e.hasKind .array then p.markerInList? e
    else if e.isMethodCall "map" then p.markerInMap? e
    else return none

/-! ### Calls -/

/-- The empty collection that stands for a literal without a value. -/
def emptyCollection? (s : Site) : Option Value :=
  if s.unwrap.hasKind .array then some (.list [])
  else if s.unwrap.hasKind .object then some (.record [])
  else none

/-- The value of a call that is given an object: the object's fields, those without a value as empty
collections or not at all. Any other call is an empty collection of the shape it answers. -/
def foldCall (p : Project) (call : Site) : Attempt Value := do
  match (call.firstArgument?.map Site.unwrap).filter (·.hasKind .object) with
  | none => return if (← p.callShape? call) == some .array then .list [] else .record []
  | some object =>
    let fields ← p.evaluateObject object
    return .record <| fields.failures.foldl (fun values (key, v, _) =>
      match emptyCollection? v with
      | some c => assign key c values
      | none => values) fields.values

/-! ### Resolution -/

/-- A text without a usable default. -/
def promoteText (e : Evidence) (t : Option OptionType) : Resolution :=
  if e.identifier && e.identifierDeclared && (t == some .custom || e.objectArray) then
    if e.objectArray || e.identifierIsArray then (.listOfAttrs, some (.list []))
    else (.attrs, some (.record []))
  else (.nullableStr, some .null)

/-- A set of attributes. -/
def attrsDefault (p : Project) (e : Evidence) : Attempt Resolution :=
  if e.getter then .ok (.nullableStr, some .null)
  else match (e.initializer.map Site.unwrap).filter (·.hasKind .callExpression) with
    | some call => do
      match ← p.foldCall call with
      | .list items => return (.listOfAttrs, some (.list items))
      | v => return (.attrs, some v)
    | none =>
      if e.identifier && e.objectArray then .ok (.listOfAttrs, some (.list []))
      else .ok (.attrs, some (.record []))

/-- The type and default of a setting, from the type it was classified as. -/
def resolveDefault (p : Project) (setting : Site) (target : TargetType) (e : Evidence)
    (choices : Choices) (t : Option OptionType) : Attempt Resolution :=
  match e.literal with
  | some v => .ok (target, some v)
  | none =>
    if e.stringArray then .ok (.listOfStr, some (.list []))
    else match target with
      | .listOfStr | .listOfAttrs => .ok (target, some (.list []))
      | .bool => do
        match ← p.defaultMarker? setting with
        | some (.truth b) => return (.bool, some (.truth b))
        | _ => return (.bool, some (.truth false))
      | .enum => do
        return (.enum, (← p.defaultMarker? setting).or choices.values.head?)
      | .str => .ok (promoteText e t)
      | .nullableStr => .ok (.nullableStr, some .null)
      | .attrs => p.attrsDefault e
      | .int | .float => .ok (target, none)

end Project
end SettingsHarvest
