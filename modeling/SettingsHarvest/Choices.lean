import SettingsHarvest.Evaluation
import SettingsHarvest.Text.Template

/-! The values a setting can be chosen from.

Authors write the list of choices in many ways. Five idioms are understood: a list of constants, a
list of objects with `value` and `label`, `.map` over a list or over the keys or values of an object,
`Array.from`, and tables whose entries are texts or calls that stand for a text. `matchOptions` tries
them in this order and takes the first that succeeds; an idiom that does not apply answers nothing at
all, and the failure of the last one that applies is kept. A setting without choices is simply not a
choice, and no failure for `choicesOf`. -/
namespace SettingsHarvest
open Syntax

/-- Values in order, with labels under the texts of values. -/
structure Choices where
  values : List Value
  labels : List (String × String)

namespace Choices

def none : Choices := ⟨[], []⟩

def isEmpty (c : Choices) : Bool := c.values.isEmpty

/-- Adds one option; a label for the same text takes the place of an earlier one. -/
def add (c : Choices) (option : Value × Option String) : Attempt Choices := do
  let labels ← match option.2 with
    | some label => pure (assign (← option.1.keyText) label c.labels)
    | .none => pure c.labels
  return ⟨c.values ++ [option.1], labels⟩

/-- The options that could be read, in order. -/
def collect (options : List (Outcome (Value × Option String))) : Attempt Choices :=
  options.foldlM (fun c o => match o with
    | .ok option => c.add option
    | .error _ => pure c) none

end Choices

/-- What a callback is given: a key, or an element in its place. -/
inductive Element where
  | key (k : String)
  | site (s : Site)

def Element.bound : Element → Bound
  | key k => .value (.text k)
  | site s => .expression s

namespace Syntax.Site

/-- What stands behind the dots of a spread. -/
def spreadSource? (spread : Site) : Option Site := spread.named.head?

/-- The argument of `Object.keys` or `Object.values`. -/
def firstArgument? (call : Site) : Option Site := call.callArguments.head?

/-- The keys of the pairs of an object literal. -/
def keys (object : Site) : Attempt (List String) := do return (← object.pairs).map (·.1)

end Syntax.Site

namespace Project

/-! ### Lists -/

/-- An expression reduced to a list or a call: without wrappers, without a function around it, and
followed through names. -/
def optionsExpression (p : Project) (s : Site) : Attempt Site := do
  let s := s.unwrap
  let s := if s.isFunction then (s.bodyExpression?.map Site.unwrap).getD s else s
  if s.hasKind .identifier || s.hasKind .memberExpression then
    match ← p.denoted? s with
    | some found =>
      return if found.hasKind .array || found.hasKind .callExpression then found else s
    | none => return s
  else return s

/-- The elements of a list, other lists spread into it; nothing if one of those is unknown. -/
def spreadElements (p : Project) : List Site → Attempt (Option (List Element))
  | [] => .ok (some [])
  | e :: rest =>
    if e.hasKind .spreadElement then do
      let source ← match e.spreadSource? with
        | some s => p.array? s
        | none => pure none
      match source with
      | none => return none
      | some list =>
        return (← p.spreadElements rest).map (list.named.map .site ++ ·)
    else do return (← p.spreadElements rest).map (.site e :: ·)

/-- What a callback of `.map` sees, in order. -/
def mapElements (p : Project) (receiver : Option Site) : Attempt (Option (List Element)) := do
  let start := receiver.map Site.unwrap
  let source ← match start with
    | some s =>
      if s.hasKind .identifier || s.hasKind .memberExpression then p.denoted? s
      else pure (some s)
    | none => pure none
  match source with
  | none => return none
  | some s =>
    if s.hasKind .array then p.spreadElements s.named
    else if s.isMethodCallOn "Object" "keys" || s.isMethodCallOn "Object" "values" then do
      let object ← match s.firstArgument? with
        | some a => p.object? a
        | none => pure none
      match object with
      | none => return none
      | some o =>
        let pairs ← o.pairs
        if s.isMethodCallOn "Object" "keys" then return some (pairs.map (.key ·.1))
        else return some (pairs.filterMap fun e => e.2.pairValue?.map .site)
    else return none

/-! ### Options -/

/-- The value and the label of an option object; a label counts if it is a text. -/
def optionOf (p : Project) (b : Bindings) (object : Site) :
    Attempt (Outcome (Value × Option String)) := do
  match ← object.memberValue? "value" with
  | none => return .error .noOptionValue
  | some valueSite => match ← p.evaluate valueSite b with
    | .error f => return .error f
    | .ok v => match ← object.memberValue? "label" with
      | none => return .ok (v, none)
      | some labelSite => match ← p.evaluate labelSite b with
        | .ok (.text label) => return .ok (v, some label)
        | _ => return .ok (v, none)

/-- An element of a list of options that is no spread. -/
def elementOption (p : Project) (e : Site) : Attempt (Outcome (Value × Option String)) :=
  if e.hasKind .object then p.optionOf [] e
  else do return (← p.evaluate e []).map fun v => (v, none)

/-- The options of a list that was spread into another one; spreads in it are left out. -/
def innerOptions (p : Project) (list : Site) : Attempt (List (Outcome (Value × Option String))) :=
  ((list.named.map Site.unwrap).filter (!·.hasKind .spreadElement)).mapM p.elementOption

/-- The options of a list, one level of spreads followed. -/
def listOptions (p : Project) (list : Site) : Attempt (List (Outcome (Value × Option String))) := do
  return (← (list.named.map Site.unwrap).mapM fun e =>
    if e.hasKind .spreadElement then do
      let source ← match e.spreadSource? with
        | some s => p.array? s
        | none => pure none
      match source with
      | none => return [.error (.unresolvedSpread e.text)]
      | some inner => p.innerOptions inner
    else do return [← p.elementOption e]).flatten

/-! ### Idioms -/

/-- An idiom answers nothing where it does not apply. -/
abbrev Idiom := Project → Site → Attempt (Option (Outcome Choices))

def applies (o : Outcome Choices) : Attempt (Option (Outcome Choices)) := .ok (some o)

def doesNotApply : Attempt (Option (Outcome Choices)) := .ok none

def failureOf? {α : Type} : Outcome α → Option Failure
  | .ok _ => none
  | .error f => some f

def valueOf? {α : Type} : Outcome α → Option α
  | .ok a => some a
  | .error _ => none

/-- A list of constants. -/
def literalList : Idiom := fun p s =>
  if !s.hasKind .array then doesNotApply
  else if s.named.any fun e => e.unwrap.hasKind .object || e.unwrap.hasKind .spreadElement then
    doesNotApply
  else do
    let outcomes ← s.named.mapM fun e => p.evaluate e []
    let values := outcomes.filterMap valueOf?
    if !s.named.isEmpty && values.isEmpty then
      applies (.error (.noConstantElements (outcomes.filterMap failureOf?)))
    else applies (.ok ⟨values, []⟩)

/-- A list of option objects. -/
def objectList : Idiom := fun p s =>
  if !s.hasKind .array then doesNotApply
  else do
    let options ← p.listOptions s
    let choices ← Choices.collect options
    if !options.isEmpty && choices.isEmpty then
      let missing := (options.filterMap failureOf?).any fun f => f.kind == .missingRequiredProperty
      applies (.error (.noOptionObjects missing))
    else applies (.ok choices)

/-- The function that `.map` is given. -/
def mapCallback? (p : Project) (call : Site) : Attempt (Option Site) :=
  match call.firstArgument? with
  | none => .ok none
  | some a => do
    let direct := a.unwrap
    let found ← if direct.isFunction then pure (some direct) else p.denoted? direct
    return found.filter Site.isFunction

/-- What the parameters of a callback stand for at one element. The element is the first one, its
position the second. -/
def callbackBindings (parameters : List String) (position : Nat) (e : Element) : Bindings :=
  match parameters with
  | [] => []
  | [x] => [(x, e.bound)]
  | x :: i :: _ => [(i, .value (.integer position)), (x, e.bound)]

/-- Elements with the bindings they give a callback, in order. -/
def elementBindings (parameters : List String) (elements : List Element) : List Bindings :=
  elements.zipIdx.map fun (e, i) => callbackBindings parameters i e

/-- The object literal a callback answers. -/
def callbackObject? (callback : Site) : Option Site :=
  (callback.bodyExpression?.map Site.unwrap).filter (·.hasKind .object)

/-- `.map` with a callback that answers option objects. -/
def mappedList : Idiom := fun p s =>
  if !s.isMethodCall "map" then doesNotApply
  else do
    let elements ← p.mapElements s.receiver?
    let callback ← p.mapCallback? s
    match elements, callback with
    | some elements, some callback =>
      match callback.parameterNames?, callbackObject? callback with
      | none, _ => applies (.error .destructuredParameter)
      | _, none => applies (.error .callbackBody)
      | some parameters, some body =>
        let options ← (elementBindings parameters elements).mapM fun b => p.optionOf b body
        let choices ← Choices.collect options
        if !elements.isEmpty && choices.isEmpty then applies (.error .noCallbackValues)
        else applies (.ok choices)
    | _, _ => doesNotApply

/-- `Array.from` over a list of constants. -/
def copiedList : Idiom := fun p s =>
  if !s.isMethodCallOn "Array" "from" then doesNotApply
  else match s.firstArgument? with
    | none => applies (.error .listFromNothing)
    | some a => do
      match ← p.array? a with
      | none => applies (.error .listFromUnknown)
      | some list => match ← literalList p list with
        | some o => applies o
        | none => applies (.error .listFromObjects)

/-! ### Lookup tables -/

/-- A text constant declared at the top of the file a site is in. -/
def textConstant? (p : Project) (s : Site) (name : String) : Attempt (Option String) := do
  match ((← s.program.declarations).lookup? name).bind Declaration.value? with
  | none => return none
  | some initializer => match ← p.evaluate initializer [] with
    | .ok (.text t) => return some t
    | _ => return none

/-- What a call of a helper with a name stands for, by the first family of tables that knows it. -/
def helperText (p : Project) (table call name : Site) : Attempt (Option String) :=
  firstSome (fun (l : LookupTable) => do
    if (call.callee?.map (·.text)) != some (← l.helper) then return none
    let base ← p.textConstant? table (← l.baseConstant)
    let revision ← p.textConstant? table (← l.revisionConstant)
    match base, revision with
    | some base, some revision =>
      let called ← name.stringValue
      let template ← l.template
      return some (← Text.fill template
        [("base", base), ("revision", revision), ("name", called)])
    | _, _ => return none) p.lookups

/-- The text an entry of a table stands for. -/
def entryText (p : Project) (table entry : Site) : Attempt (Option String) :=
  if entry.isStringLiteral then entry.stringValue.map some
  else if entry.hasKind .callExpression then
    match entry.firstArgument?.map Site.unwrap with
    | some name => if name.isStringLiteral then p.helperText table entry name else .ok none
    | none => .ok none
  else .ok none

/-- The texts of the entries of a table, from the first pair on. -/
def entryTexts (p : Project) (table : Site) : List Site → Attempt (List String)
  | [] => .ok []
  | pair :: rest => do
    let found ← match ← pair.memberKey?, pair.pairValue? with
      | some _, some v => p.entryText table v.unwrap
      | _, _ => pure none
    return found.toList ++ (← p.entryTexts table rest)

/-- The texts of the entries of a lookup table, in order. -/
def tableTexts (p : Project) (table : Site) : Attempt (List String) :=
  p.entryTexts table (table.named.filter (·.hasKind .pair))

/-- The table that a callback reads its values from by key. -/
def indexedTable? (callback : Site) : Attempt (Option Site) :=
  match callback.bodyExpression?.map Site.unwrap with
  | none => .ok none
  | some body => do
    return (((← body.memberValue? "value").map Site.unwrap).filter
      (·.hasKind .subscriptExpression)).bind fun v =>
        ((v.part? .object).map Site.unwrap).filter (·.hasKind .identifier)

/-- The expression that names the table of a `.map` call: what the callback reads from, or what the
keys come from. -/
def tableExpression? (p : Project) (call : Site) : Attempt (Option Site) := do
  let indexed ← match ← p.mapCallback? call with
    | some callback => indexedTable? callback
    | none => pure none
  match indexed with
  | some t => return some t
  | none =>
    let receiver ← match call.receiver? with
      | some r => p.denoted? r
      | none => pure none
    return (receiver.filter (·.isMethodCallOn "Object" "keys")).bind (·.firstArgument?)

/-- `.map` over the keys of a lookup table. -/
def tableList : Idiom := fun p s =>
  if !s.isMethodCall "map" then doesNotApply
  else do
    match ← p.tableExpression? s with
    | none => doesNotApply
    | some e => match ← p.object? e with
      | none => applies (.error (.unresolvedTable e.text))
      | some table =>
        let texts ← p.tableTexts table
        let texts ← if texts.isEmpty then table.keys else pure texts
        if texts.isEmpty then applies (.error .emptyTable)
        else applies (.ok ⟨texts.map .text, []⟩)

/-! ### All idioms -/

def idioms : List Idiom := [literalList, objectList, mappedList, copiedList, tableList]

/-- The first success among idioms, or the last failure. -/
def firstChoices (p : Project) (s : Site) : Failure → List Idiom → Attempt (Outcome Choices)
  | last, [] => .ok (.error last)
  | last, idiom :: rest => do
    match ← idiom p s with
    | none => firstChoices p s last rest
    | some (.ok c) => return .ok c
    | some (.error f) => firstChoices p s f rest

/-- The choices an `options` expression offers. -/
def matchOptions (p : Project) (s : Site) : Attempt (Outcome Choices) := do
  let e ← p.optionsExpression s
  p.firstChoices e (.unsupportedOptions e.typeName) idioms

/-- The choices of a setting; none if its options are not understood. -/
def choicesOf (p : Project) (setting : Site) : Attempt Choices := do
  match ← setting.memberValue? "options" with
  | none => return .none
  | some options => match ← p.matchOptions options with
    | .ok c => return c
    | .error _ => return .none

end Project
end SettingsHarvest
