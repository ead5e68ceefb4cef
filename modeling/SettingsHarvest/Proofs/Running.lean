import SettingsHarvest.Proofs.Assignment
import SettingsHarvest.Proofs.LiteralAccess

/-! What a program computes.

`runWithin` runs an expression as the language does, a bounded number of steps deep: an object has the
last value of a key that was written twice, a list the elements of its spreads in place, a function the
scope it was made in, and `Array.from` calls the function it is given. A name stands for what the scopes
around it declare, and no variable is assigned to again. Where the forms here say nothing about a value
(`undefined`, the answer of an unknown function, an element of an unknown list) it is `other`.

Evaluation reads the source instead, and for some programs reads it otherwise. A careful run gives up
where that can happen: where a key is not settled by the literal it is read from, an element not by its
position, a number not exact. So all that a careful run adds to a run is places where it has no answer
(`runWithin_of_careful`), and what those places are stands beside the forms of expression (`heed`). -/
namespace SettingsHarvest
open Syntax

/-- What a run computes. -/
inductive ScriptValue where
  /-- A text, a number, a truth value or null. -/
  | constant (v : Value)
  /-- A list. The layers are how deep spreads go in the literal that wrote it; a gap counts as two. -/
  | list (layers : Nat) (items : List ScriptValue)
  /-- An object, with the literal that wrote it. -/
  | record (literal : Site) (fields : List (String × ScriptValue))
  /-- A function, with the parameters of those around it. -/
  | closure (function : Site) (scope : List (String × ScriptValue))
  /-- A value that is not described. -/
  | other

/-- The parameters there are, the innermost first. -/
abbrev Scope := List (String × ScriptValue)

/-- How a run computes an expression inside another one. -/
abbrev Runner := Scope → Site → Option ScriptValue

/-- A careful run goes on only where a condition holds. -/
def heed (careful condition : Bool) : Option Unit := if careful && !condition then none else some ()

/-! ### Numbers -/

namespace Value

/-- Whether floating point holds a number exactly, as far as its size tells. -/
def isExact : Value → Bool
  | integer n => decide (n.natAbs < safeIntegerBound)
  | _ => true

/-- The number of the language that is nearest to a number. -/
def rounded (v : Value) : Value := if v.isExact then v.normalize else
  match v with
  | integer n => (decimal (.ofInt n)).normalize
  | v => v

end Value

/-- A number that is the result of an operation. -/
def computedNumber (careful : Bool) (v : Value) : Option ScriptValue :=
  match v with
  | .decimal (.infinite _) | .decimal .nan => some .other
  | v => do
    heed careful v.isExact
    return .constant v.rounded

/-- A numeral; big integers are of a kind of their own. -/
def runNumeral (careful : Bool) (s : Site) : Option ScriptValue := do
  heed careful (!s.text.endsWith "n")
  if s.text.endsWith "n" then return .other
  computedNumber careful (← (Numeral.parse s.text).toOption)

/-- `left operator right` on numbers. -/
def runBinary (careful : Bool) (recur : Runner) (scope : Scope) (s : Site) : Option ScriptValue :=
  match BinaryOperator.ofText? (operatorText s), s.part? .left, s.part? .right with
  | some o, some left, some right => do
    match ← recur scope left, ← recur scope right with
    | .constant m, .constant n =>
      if m.isNumber && n.isNumber && !(o.divides && n.isZero) then
        match o.apply m n with
        | .ok (some v) => computedNumber careful v
        | _ => return .other
      else return .other
    | _, _ => return .other
  | _, _, _ => some .other

/-- `operator argument` on a number. -/
def runUnary (careful : Bool) (recur : Runner) (scope : Scope) (s : Site) : Option ScriptValue :=
  match UnaryOperator.ofText? (operatorText s), s.part? .argument with
  | some o, some argument => do
    match ← recur scope argument with
    | .constant n =>
      if n.isNumber then
        match o.apply n with
        | .ok v => computedNumber careful v
        | .error _ => return .other
      else return .other
    | _ => return .other
  | _, _ => some .other

/-! ### Objects -/

namespace Syntax.Site

/-- The key that a member of an object writes, and the expression of its value if it has one. -/
def written? (member : Site) : Option (String × Option Site) :=
  match member.kind? with
  | some .pair => (member.writtenKey?.filter (· != "__proto__")).map (·, member.pairValue?)
  | some .methodDefinition => member.writtenKey?.map (·, none)
  | some .shorthandPropertyIdentifier => member.nameText?.map (·, some member)
  | _ => none

/-- The key that a member is spelled with. -/
def spelledKey? (member : Site) : Option String :=
  if member.hasKind .shorthandPropertyIdentifier then some member.text
  else member.memberKey?.toOption.join

/-- Whether a member writes the key that it is spelled with. -/
def isLegible (member : Site) : Bool :=
  match member.written? with
  | some (key, _) => member.spelledKey? == some key
  | none => false

def writtenKeys (members : List Site) : List String := members.filterMap fun m => m.written?.map (·.1)

/-- Members that each write a key of their own, the one they are spelled with. -/
def areOrderly (members : List Site) : Bool :=
  members.all isLegible && decide (writtenKeys members).Nodup

/-- An object literal whose open members, if it has any, stand in front. -/
def isOrderly (literal : Site) : Bool := areOrderly (literal.named.dropWhile isOpen)

/-- An object literal of nothing but pairs, with keys that keep the order they are written in. -/
def isTable (literal : Site) : Bool :=
  literal.named.all (fun m => m.hasKind .pair && m.pairValue?.isSome) && areOrderly literal.named
    && (writtenKeys literal.named).all fun key => !Project.isIndex key

end Syntax.Site

/-- What a member of an object writes: nothing that is known, or a value under a key. -/
def runMember (recur : Runner) (scope : Scope) (member : Site) :
    Option (Option (String × ScriptValue)) :=
  match member.written? with
  | none => some none
  | some (key, none) => some (some (key, .other))
  | some (key, some value) => do return some (key, ← recur scope value)

/-- The fields once a member is written. One that may have any key leaves none known. -/
def writeField (fields : Scope) : Option (String × ScriptValue) → Scope
  | none => fields.map fun field => (field.1, .other)
  | some (key, d) => assign key d fields

def runObject (recur : Runner) (scope : Scope) (s : Site) : Option ScriptValue := do
  return .record s ((← s.named.mapM (runMember recur scope)).foldl writeField [])

/-! ### Lists -/

/-- The elements of a list literal in order, none where there is a gap. A comma with nothing in front is
one: behind the bracket or another comma the place is `vacant`. -/
def places (list : Site) : Bool → List Node → List (Option Site)
  | _, [] => []
  | vacant, part :: rest =>
    if part.isNamedPart then some (list.inside part) :: places list false rest
    else if isComma part then (if vacant then [none] else []) ++ places list true rest
    else places list vacant rest

/-- What an element adds to a list, and how many layers of spreads. -/
def runElement (recur : Runner) (scope : Scope) : Option Site → Option (Nat × List ScriptValue)
  | none => some (2, [.other])
  | some e =>
    if e.hasKind .spreadElement then do
      match ← recur scope (← e.spreadSource?) with
      | .list layers items => return (layers + 1, items)
      | .constant (.text t) => return (2, t.toList.map fun c => .constant (.text (String.singleton c)))
      | _ => none
    else do return (0, [← recur scope e])

/-- The most layers among the elements of a list. -/
def mostLayers (pieces : List (Nat × List ScriptValue)) : Nat :=
  pieces.foldr (fun piece n => max piece.1 n) 0

def runList (recur : Runner) (scope : Scope) (s : Site) : Option ScriptValue := do
  let pieces ← (places s true s.node.parts).mapM (runElement recur scope)
  return .list (mostLayers pieces) (pieces.flatMap (·.2))

/-! ### Members -/

/-- The position that a key of a list counts to. -/
def position? (key : String) : Option Nat :=
  (Numeral.readInteger 10 key).toOption.bind fun n =>
    if toString n.toNat == key then some n.toNat else none

/-- The value under a key. -/
def ScriptValue.get (careful : Bool) (key : String) : ScriptValue → Option ScriptValue
  | record literal fields => do
    heed careful literal.isOrderly
    return (fields.lookup key).getD other
  | list layers items => do
    heed careful (!Project.isIndex key || layers == 0 && (position? key).isSome)
    return ((position? key).bind fun i => items[i]?).getD other
  | _ => some other

/-- The key of a constant. -/
def scriptKey? : Value → Option String
  | .text key => some key
  | v => numberKey v

/-- The key that evaluation takes for a constant. -/
def readKey? : Value → Option String
  | .text key => some key
  | v => v.keyText.toOption

namespace Project

/-- Whether a base is the name of an enumeration, in the files or with a member outside of them. -/
def namesEnum (p : Project) (base : Site) (key : String) : Bool :=
  (p.enumMember? base.text key).isSome || base.hasKind .identifier &&
    match p.declaration? base with
    | .ok (some d) => (d.binding matches .enumeration)
    | _ => false

/-- `base[index]` or `base.key`, once the key is computed. -/
def runAccess (p : Project) (careful : Bool) (recur : Runner) (scope : Scope) (base : Site)
    (spelled : Option String) (key? : Option String) : Option ScriptValue := do
  heed careful (key? == spelled && key?.all fun key => !p.namesEnum base.unwrap key)
  match key? with
  | some key => (← recur scope base).get careful key
  | none => return .other

/-- The key of `base.name`, if it is no private one. -/
def propertyKey? (name : Site) : Option String :=
  if name.hasKind .propertyIdentifier then name.nameText? else none

def runProperty (p : Project) (careful : Bool) (recur : Runner) (scope : Scope) (s : Site) :
    Option ScriptValue :=
  match s.part? .object, s.part? .property with
  | some base, some name =>
    p.runAccess careful recur scope base (some name.text) (propertyKey? name)
  | _, _ => some .other

def runSubscript (p : Project) (careful : Bool) (recur : Runner) (scope : Scope) (s : Site) :
    Option ScriptValue :=
  match s.part? .object, s.part? .index with
  | some base, some index => do
    match ← recur scope index with
    | .constant v => p.runAccess careful recur scope base (readKey? v) (scriptKey? v)
    | _ => return .other
  | _, _ => some .other

/-! ### Names -/

/-- The value of a name: that of a parameter, or of what the scopes around it declare. -/
def runName (p : Project) (careful : Bool) (recur : Runner) (scope : Scope) (s : Site) :
    Option ScriptValue := do
  match ← (p.declaration? s).toOption with
  | none =>
    heed careful ((scope.lookup s.text).isNone && (initializerBySpelling? s).isNone)
    return .other
  | some d =>
    if d.binding matches .parameter then return (scope.lookup s.text).getD .other
    heed careful (scope.lookup s.text).isNone
    match d.value? with
    | some value => recur [] value
    | none => return .other

/-! ### Calls -/

/-- Parameters with the arguments they are given; the last one of a name comes first. -/
def given (parameters : List String) (arguments : List ScriptValue) : Scope :=
  (parameters.zipIdx.map fun (x, i) => (x, (arguments[i]?).getD .other)).reverse

/-- The answer of a function that is called with arguments. -/
def invoke (recur : Runner) (function : Site) (scope : Scope) (arguments : List ScriptValue) :
    Option ScriptValue :=
  match function.parameterNames?, function.bodyExpression? with
  | some parameters, some body => recur (given parameters arguments ++ scope) body
  | _, _ => some .other

/-- The answers of a function for the items of a list, each given with its position. -/
def invokeEach (recur : Runner) (function : Site) (scope : Scope) (items : List ScriptValue)
    (more : List ScriptValue) : Option ScriptValue := do
  return .list 0 (← items.zipIdx.mapM fun (d, i) =>
    invoke recur function scope (d :: .constant (.integer i) :: more))

/-- A call of a method of an object that no scope declares. -/
def callsGlobal (p : Project) (scope : Scope) (s : Site) (receiver method : String) : Bool :=
  s.isMethodCallOn receiver method && (scope.lookup receiver).isNone &&
    match s.receiver?.map p.declaration? with
    | some (.ok none) => true
    | _ => false

/-- `list.map(function)`. -/
def runMap (careful : Bool) (recur : Runner) (scope : Scope) (s : Site) : Option ScriptValue :=
  match s.receiver?, s.firstArgument? with
  | some receiver, some callback => do
    match ← recur scope receiver, ← recur scope callback with
    | .list layers items, .closure function outer =>
      heed careful (decide (layers ≤ 1) && function.parameterNames?.all fun xs => decide xs.Nodup)
      invokeEach recur function outer items [.list layers items]
    | _, _ => return .other
  | _, _ => some .other

/-- `Object.keys(object)` or `Object.values(object)`. -/
def runEntries (keys : Bool) (recur : Runner) (scope : Scope) (s : Site) : Option ScriptValue :=
  match s.firstArgument? with
  | some a => do
    match ← recur scope a with
    | .record literal fields =>
      if literal.isTable then
        return .list 0 (fields.map fun field => if keys then .constant (.text field.1) else field.2)
      else return .other
    | _ => return .other
  | none => some .other

/-- `Array.from(list)` or `Array.from(list, function)`. -/
def runCopy (careful : Bool) (recur : Runner) (scope : Scope) (s : Site) : Option ScriptValue :=
  match s.callArguments with
  | [] => some .other
  | source :: more => do
    match ← recur scope source with
    | .list _ items =>
      heed careful more.isEmpty
      match more with
      | [] => return .list 0 items
      | f :: _ =>
        match ← recur scope f with
        | .closure function outer => invokeEach recur function outer items []
        | _ => return .other
    | _ => return .other

def runCall (p : Project) (careful : Bool) (recur : Runner) (scope : Scope) (s : Site) :
    Option ScriptValue :=
  if s.isMethodCall "map" then runMap careful recur scope s
  else if p.callsGlobal scope s "Object" "keys" then runEntries true recur scope s
  else if p.callsGlobal scope s "Object" "values" then runEntries false recur scope s
  else if p.callsGlobal scope s "Array" "from" then runCopy careful recur scope s
  else some .other

/-! ### Expressions -/

/-- A function that answers what it returns, and at once. -/
def isPlainFunction (s : Site) : Bool :=
  (s.hasKind .arrowFunction || s.hasKind .functionExpression || s.hasKind .functionDeclaration)
    && s.node.parts.all fun part => part.kind?.isSome || part.text != "async"

/-- A template. The language takes a line break of two characters in it for one. -/
def runTemplate (careful : Bool) (s : Site) : Option ScriptValue := do
  if s.hasSubstitutions then return .other
  heed careful (!s.text.contains '\r')
  if s.text.contains '\r' then return .other
  return .constant (.text (← s.stringValue.toOption))

/-- One form of expression, without wrappers. -/
def runForm (p : Project) (careful : Bool) (recur : Runner) (scope : Scope) (s : Site) :
    Option ScriptValue :=
  match s.kind? with
  | some .string => do return .constant (.text (← s.stringValue.toOption))
  | some .templateString => runTemplate careful s
  | some .number => runNumeral careful s
  | some .trueLiteral => some (.constant (.truth true))
  | some .falseLiteral => some (.constant (.truth false))
  | some .nullLiteral => some (.constant .null)
  | some .identifier | some .shorthandPropertyIdentifier => p.runName careful recur scope s
  | some .memberExpression => p.runProperty careful recur scope s
  | some .subscriptExpression => p.runSubscript careful recur scope s
  | some .binaryExpression => runBinary careful recur scope s
  | some .unaryExpression => runUnary careful recur scope s
  | some .object => runObject recur scope s
  | some .array => runList recur scope s
  | some .callExpression => p.runCall careful recur scope s
  | some .spreadElement => none
  | _ => some (if isPlainFunction s then .closure s scope else .other)

/-- What an expression comes to, computed a number of steps deep. -/
def runWithin (p : Project) (careful : Bool) : Nat → Runner
  | 0, _, _ => none
  | steps + 1, scope, s => p.runForm careful (runWithin p careful steps) scope s.unwrap

/-- The value that an element of a list of options offers: the element, or its `value` if it is an
object. -/
def offer (careful : Bool) : ScriptValue → Option ScriptValue
  | .record literal fields => (ScriptValue.record literal fields).get careful "value"
  | d => some d

/-- What a function answers without arguments; any other value is its own answer. -/
def answerOf (recur : Runner) : ScriptValue → Option ScriptValue
  | .closure function scope => invoke recur function scope []
  | d => some d

/-- The values that a list of options offers. -/
def offers (careful : Bool) : ScriptValue → Option (List ScriptValue)
  | .list _ items => items.mapM (offer careful)
  | _ => none

/-- The values that an expression for options offers: those of the list it comes to, or that a function
it comes to answers. -/
def offeredWithin (p : Project) (careful : Bool) (steps : Nat) (s : Site) :
    Option (List ScriptValue) := do
  let list ← answerOf (p.runWithin careful steps) (← p.runWithin careful steps [] s)
  offers careful list

end Project

/-! ### Careful runs are runs -/

/-- What one computation comes to, the other comes to as well. -/
def Carries {α : Type} (x y : Option α) : Prop := ∀ a, x = some a → y = some a

namespace Carries

variable {α β : Type} {x y : Option α} {f g : α → Option β}

theorem refl (x : Option α) : Carries x x := fun _ h => h

theorem bind (hx : Carries x y) (hf : ∀ a, Carries (f a) (g a)) : Carries (x >>= f) (y >>= g) := by
  intro b hb
  obtain ⟨a, ha, hb⟩ := Option.bind_eq_some_iff.1 hb
  exact Option.bind_eq_some_iff.2 ⟨a, hx a ha, hf a b hb⟩

theorem mapM {items : List α} (h : ∀ a, Carries (f a) (g a)) : Carries (items.mapM f) (items.mapM g) := by
  induction items with
  | nil => exact refl _
  | cons a rest ih =>
    rw [List.mapM_cons, List.mapM_cons]
    exact (h a).bind fun b => ih.bind fun others => refl _

theorem heed (condition : Bool) : Carries (heed true condition) (heed false condition) := by
  intro a _
  rfl

end Carries

/-- What one runner computes, the other computes as well. -/
def RunsAlso (recur recur' : Runner) : Prop := ∀ scope s, Carries (recur scope s) (recur' scope s)

section Careful

variable {p : Project} {recur recur' : Runner} {scope : Scope} {s : Site}

theorem carries_computedNumber (v : Value) :
    Carries (computedNumber true v) (computedNumber false v) := by
  unfold computedNumber
  split
  · exact .refl _
  · exact .refl _
  · exact (Carries.heed _).bind fun _ => .refl _

theorem carries_runNumeral (s : Site) : Carries (runNumeral true s) (runNumeral false s) := by
  refine (Carries.heed _).bind fun _ => ?_
  split
  · exact .refl _
  · exact (Carries.refl _).bind carries_computedNumber

theorem carries_runTemplate (s : Site) :
    Carries (Project.runTemplate true s) (Project.runTemplate false s) := by
  unfold Project.runTemplate
  split
  · exact .refl _
  · exact (Carries.heed _).bind fun _ => .refl _

theorem carries_runBinary (h : RunsAlso recur recur') :
    Carries (runBinary true recur scope s) (runBinary false recur' scope s) := by
  unfold runBinary
  split
  · refine (h _ _).bind fun m => (h _ _).bind fun n => ?_
    split
    · split
      · split
        · exact carries_computedNumber _
        · exact .refl _
      · exact .refl _
    · exact .refl _
  · exact .refl _

theorem carries_runUnary (h : RunsAlso recur recur') :
    Carries (runUnary true recur scope s) (runUnary false recur' scope s) := by
  unfold runUnary
  split
  · refine (h _ _).bind fun n => ?_
    split
    · split
      · split
        · exact carries_computedNumber _
        · exact .refl _
      · exact .refl _
    · exact .refl _
  · exact .refl _

theorem carries_runObject (h : RunsAlso recur recur') :
    Carries (runObject recur scope s) (runObject recur' scope s) := by
  refine (Carries.mapM fun member => ?_).bind fun _ => .refl _
  unfold runMember
  split
  · exact .refl _
  · exact .refl _
  · exact (h _ _).bind fun _ => .refl _

theorem carries_runList (h : RunsAlso recur recur') :
    Carries (runList recur scope s) (runList recur' scope s) := by
  refine (Carries.mapM fun place => ?_).bind fun _ => .refl _
  unfold runElement
  split
  · exact .refl _
  · split
    · exact (Carries.refl _).bind fun source => (h _ _).bind fun _ => .refl _
    · exact (h _ _).bind fun _ => .refl _

theorem carries_get (key : String) (d : ScriptValue) : Carries (d.get true key) (d.get false key) := by
  unfold ScriptValue.get
  split
  · exact (Carries.heed _).bind fun _ => .refl _
  · exact (Carries.heed _).bind fun _ => .refl _
  · exact .refl _

theorem carries_runAccess (h : RunsAlso recur recur') {base : Site} {spelled key : Option String} :
    Carries (p.runAccess true recur scope base spelled key)
      (p.runAccess false recur' scope base spelled key) := by
  refine (Carries.heed _).bind fun _ => ?_
  split
  · exact (h _ _).bind (carries_get _)
  · exact .refl _

theorem carries_runProperty (h : RunsAlso recur recur') :
    Carries (p.runProperty true recur scope s) (p.runProperty false recur' scope s) := by
  unfold Project.runProperty
  split
  · exact carries_runAccess h
  · exact .refl _

theorem carries_runSubscript (h : RunsAlso recur recur') :
    Carries (p.runSubscript true recur scope s) (p.runSubscript false recur' scope s) := by
  unfold Project.runSubscript
  split
  · refine (h _ _).bind fun index => ?_
    split
    · exact carries_runAccess h
    · exact .refl _
  · exact .refl _

theorem carries_runName (h : RunsAlso recur recur') :
    Carries (p.runName true recur scope s) (p.runName false recur' scope s) := by
  refine (Carries.refl _).bind fun found => ?_
  split
  · exact (Carries.heed _).bind fun _ => .refl _
  · split
    · exact .refl _
    · refine (Carries.heed _).bind fun _ => ?_
      split
      · exact h _ _
      · exact .refl _

theorem carries_invoke (h : RunsAlso recur recur') {arguments : List ScriptValue} :
    Carries (Project.invoke recur s scope arguments) (Project.invoke recur' s scope arguments) := by
  unfold Project.invoke
  split
  · exact h _ _
  · exact .refl _

theorem carries_invokeEach (h : RunsAlso recur recur') {items more : List ScriptValue} :
    Carries (Project.invokeEach recur s scope items more)
      (Project.invokeEach recur' s scope items more) :=
  (Carries.mapM fun _ => carries_invoke h).bind fun _ => .refl _

theorem carries_runMap (h : RunsAlso recur recur') :
    Carries (Project.runMap true recur scope s) (Project.runMap false recur' scope s) := by
  unfold Project.runMap
  split
  · refine (h _ _).bind fun receiver => (h _ _).bind fun callback => ?_
    split
    · exact (Carries.heed _).bind fun _ => carries_invokeEach h
    · exact .refl _
  · exact .refl _

theorem carries_runEntries (h : RunsAlso recur recur') {keys : Bool} :
    Carries (Project.runEntries keys recur scope s) (Project.runEntries keys recur' scope s) := by
  unfold Project.runEntries
  split
  · exact (h _ _).bind fun _ => .refl _
  · exact .refl _

theorem carries_runCopy (h : RunsAlso recur recur') :
    Carries (Project.runCopy true recur scope s) (Project.runCopy false recur' scope s) := by
  unfold Project.runCopy
  split
  · exact .refl _
  · refine (h _ _).bind fun source => ?_
    split
    · refine (Carries.heed _).bind fun _ => ?_
      split
      · exact .refl _
      · refine (h _ _).bind fun f => ?_
        split
        · exact carries_invokeEach h
        · exact .refl _
    · exact .refl _

theorem carries_runCall (h : RunsAlso recur recur') :
    Carries (p.runCall true recur scope s) (p.runCall false recur' scope s) := by
  unfold Project.runCall
  split
  · exact carries_runMap h
  · split
    · exact carries_runEntries h
    · split
      · exact carries_runEntries h
      · split
        · exact carries_runCopy h
        · exact .refl _

theorem carries_runForm (h : RunsAlso recur recur') :
    Carries (p.runForm true recur scope s) (p.runForm false recur' scope s) := by
  unfold Project.runForm
  split
  case h_2 => exact carries_runTemplate s
  case h_3 => exact carries_runNumeral s
  case h_7 | h_8 => exact carries_runName h
  case h_9 => exact carries_runProperty h
  case h_10 => exact carries_runSubscript h
  case h_11 => exact carries_runBinary h
  case h_12 => exact carries_runUnary h
  case h_13 => exact carries_runObject h
  case h_14 => exact carries_runList h
  case h_15 => exact carries_runCall h
  all_goals exact .refl _

/-- A careful run comes to nothing that a run does not come to. -/
theorem runWithin_of_careful (steps : Nat) :
    RunsAlso (p.runWithin true steps) (p.runWithin false steps) := by
  induction steps with
  | zero => exact fun _ _ => .refl _
  | succ steps ih => exact fun _ _ => carries_runForm ih

theorem offeredWithin_of_careful (steps : Nat) (s : Site) :
    Carries (p.offeredWithin true steps s) (p.offeredWithin false steps s) := by
  have hrun := runWithin_of_careful (p := p) steps
  refine (hrun _ _).bind fun d => Carries.bind ?_ fun list => ?_
  · unfold Project.answerOf
    split
    · exact carries_invoke hrun
    · exact .refl _
  · unfold Project.offers
    split
    · refine .mapM fun d => ?_
      unfold Project.offer
      split
      · exact carries_get _ _
      · exact .refl _
    · exact .refl _

end Careful

end SettingsHarvest
