import SettingsHarvest.Failure
import SettingsHarvest.Number.Literal
import SettingsHarvest.Number.Operator
import SettingsHarvest.Reference

/-! The value of a constant expression.

Some forms of expression have a value without running anything: literals, names of constants, members
of enumerations and of literals, and arithmetic on them. `evaluate` works it out or says why there is
none (`Failure`). One step, `valueOf`, reads one form and asks for the values of the expressions it
refers to; `evaluateWithin` ties the knot and goes a bounded number of steps deep.

`Bindings` give names a meaning in the one expression that is evaluated, and never in what it refers
to: a name's initializer, an element or a member is evaluated without them. -/
namespace SettingsHarvest
open Syntax

/-- A value, or why there is none. -/
abbrev Outcome (α : Type) := Except Failure α

/-- What a name is bound to: a value, or an expression of some other place. -/
inductive Bound where
  | value (v : Value)
  | expression (s : Site)

abbrev Bindings := List (String × Bound)

abbrev Evaluation := Attempt (Outcome Value)

/-- How an expression inside another one is evaluated. -/
abbrev Evaluator := Site → Bindings → Evaluation

namespace Evaluation

def value (v : Value) : Evaluation := .ok (.ok v)

def fail (f : Failure) : Evaluation := .ok (.error f)

end Evaluation
open Evaluation

/-! ### Numbers -/

/-- A number as a result: integral ones as integers, and only finite ones. -/
def finiteResult (text : String) (v : Value) : Evaluation :=
  match v with
  | .decimal x => if x.isFinite then value v.normalize else fail (.notFinite text)
  | v => value v

/-- The value of a numeral. -/
def numeralValue (s : Site) : Evaluation :=
  match Numeral.parse s.text with
  | .ok v => finiteResult s.text v
  | .error _ => fail (.unreadableNumber s.text)

/-- The number an evaluation answered. -/
def numberOf? (o : Outcome Value) : Option Value :=
  match o with
  | .ok v => if v.isNumber then some v else none
  | .error _ => none

def operatorText (s : Site) : String := ((s.part? .operator).map (·.typeName)).getD ""

/-- The value of a part in a role. -/
def partValue (recur : Evaluator) (b : Bindings) (s : Site) (r : Role) : Evaluation :=
  match s.part? r with
  | some part => recur part b
  | none => fail (.notAConstantForm s.typeName)

/-- The value of `left operator right`. -/
def binaryValue (recur : Evaluator) (b : Bindings) (s : Site) : Evaluation :=
  match BinaryOperator.ofText? (operatorText s) with
  | none => fail (.unsupportedBinary (operatorText s))
  | some o => do
    let left ← partValue recur b s .left
    let right ← partValue recur b s .right
    match numberOf? left, numberOf? right with
    | some m, some n =>
      if o.divides && n.isZero then fail (.divisionByZero s.text)
      else match ← o.apply m n with
        | some v => finiteResult s.text v
        | none => fail (.overflow s.text)
    | _, _ => fail (.binaryOperands s.text)

/-- The value of `operator argument`. -/
def unaryValue (recur : Evaluator) (b : Bindings) (s : Site) : Evaluation :=
  match UnaryOperator.ofText? (operatorText s) with
  | none => fail (.unsupportedUnary (operatorText s))
  | some o => do
    match numberOf? (← partValue recur b s .argument) with
    | some n => finiteResult s.text (← o.apply n)
    | none => fail (.unaryOperand s.text)

/-! ### Enumerations -/

/-- The members of an enumeration read so far, and the value of the next one without initializer. -/
structure EnumReading where
  members : List (String × Value)
  next : Option Value

/-- The number after a number. -/
def Value.successor : Value → Option Value
  | .integer n => some (.integer (n + 1))
  | .decimal x => some (.decimal (x.add (.ofInt 1)))
  | _ => none

/-- The name of a member: spelled out, or quoted. -/
def memberName (name : Site) : Attempt String :=
  if name.hasKind .string then name.stringValue else .ok name.text

/-- A member without initializer continues from the number before it; one with an initializer may
use the members before it by name; a member without value is left out, and so are those that would
continue from it. -/
def EnumReading.add (recur : Evaluator) (r : EnumReading) (member : Site) : Attempt EnumReading :=
  let (name?, value?) :=
    if member.hasKind .enumAssignment then (member.part? .name, member.part? .value)
    else (some member, none)
  match name? with
  | none => .ok r
  | some nameSite => do
    let name ← memberName nameSite
    match value? with
    | none => match r.next with
      | none => return r
      | some v => return ⟨assign name v r.members, v.successor⟩
    | some initializer =>
      match ← recur initializer (r.members.map fun (m, v) => (m, .value v)) with
      | .ok v => return ⟨assign name v r.members, v.successor⟩
      | .error _ => return { r with next := none }

/-- The members of an enumeration with their values, in order. -/
def enumMembersBy (recur : Evaluator) (enumeration : Site) : Attempt (List (String × Value)) :=
  match enumeration.part? .body with
  | none => .ok []
  | some body => do
    return (← body.named.foldlM (EnumReading.add recur) ⟨[], some (.integer 0)⟩).members

/-! ### Members -/

namespace Project

/-- The object or list literal that the base of an access denotes. A base that is a bound name
denotes what it is bound to. -/
def container? (p : Project) (b : Bindings) (base : Site) : Attempt (Option Site) := do
  let start? := if base.hasKind .identifier then
      match b.lookup base.text with
      | some (.value _) => none
      | some (.expression s) => some s
      | none => some base
    else some base
  match start? with
  | none => return none
  | some start =>
    return (← p.denoted? start).filter fun s => s.hasKind .object || s.hasKind .array

/-- Whether a key is spelled with digits only. -/
def isIndex (key : String) : Bool := !key.isEmpty && key.toList.all Text.isDigit

/-- The element of a list literal that a key counts to. -/
def elementAt? (container : Site) (key : String) : Attempt (Option Site) :=
  if isIndex key then do
    return container.named[(← Numeral.readInteger 10 key).toNat]?
  else .ok none

/-- The expression behind a key in a literal. -/
def entryAt? (container : Site) (key : String) : Attempt (Option Site) :=
  if container.hasKind .object then container.memberValue? key
  else elementAt? container key

/-- The value of a member of an enumeration in the files, when that is what the base names. -/
def declaredEnumMember? (p : Project) (recur : Evaluator) (b : Bindings) (base : Site)
    (key : String) : Attempt (Option Value) :=
  if base.hasKind .identifier && (b.lookup base.text).isNone then do
    match ← p.declaration? base with
    | some ⟨_, site, .enumeration⟩ => return (← enumMembersBy recur site).lookup key
    | _ => return none
  else .ok none

/-- The value behind a key: a member of a known enumeration, then an entry of a literal, then a
member of an enumeration outside the files. -/
def accessValue (p : Project) (recur : Evaluator) (b : Bindings) (base : Site) (key : String) :
    Evaluation := do
  let base := base.unwrap
  match ← p.declaredEnumMember? recur b base key with
  | some v => value v
  | none =>
    let entry ← match ← p.container? b base with
      | some c => entryAt? c key
      | none => pure none
    match entry with
    | some e => recur e []
    | none => match p.enumMember? base.text key with
      | some v => value v
      | none => fail (.unresolvedMember base.text key)

/-- The value of `base.name`. -/
def memberValue (p : Project) (recur : Evaluator) (b : Bindings) (s : Site) : Evaluation :=
  match s.accessParts? with
  | some (base, name) => p.accessValue recur b base name
  | none => fail (.notAConstantForm s.typeName)

/-- The value of `base[index]`. -/
def elementValue (p : Project) (recur : Evaluator) (b : Bindings) (s : Site) : Evaluation := do
  match ← partValue recur b s .index, s.part? .object with
  | .ok (.text key), some base => p.accessValue recur b base key
  | .ok v, some base =>
    if v.isNumber then do p.accessValue recur b base (← v.keyText)
    else fail (.unresolvedElement s.text)
  | _, _ => fail (.unresolvedElement s.text)

/-- The value of a name. -/
def nameValue (p : Project) (recur : Evaluator) (b : Bindings) (s : Site) : Evaluation :=
  match b.lookup s.text with
  | some (.value v) => value v
  | some (.expression e) => recur e []
  | none => do
    match ← p.initializer? s with
    | none => fail (.unresolvedName s.text)
    | some initializer => match ← recur initializer [] with
      | .ok v => value v
      | .error f => fail (.notConstant s.text f)

/-! ### Expressions -/

/-- The value of an expression without wrappers, given how those inside it are evaluated. -/
def valueOf (p : Project) (recur : Evaluator) (b : Bindings) (s : Site) : Evaluation :=
  match s.kind? with
  | some .string => do value (.text (← s.stringValue))
  | some .templateString =>
    if s.hasSubstitutions then fail .substitutions else do value (.text (← s.stringValue))
  | some .number => numeralValue s
  | some .trueLiteral => value (.truth true)
  | some .falseLiteral => value (.truth false)
  | some .identifier | some .shorthandPropertyIdentifier => p.nameValue recur b s
  | some .memberExpression => p.memberValue recur b s
  | some .subscriptExpression => p.elementValue recur b s
  | some .binaryExpression => binaryValue recur b s
  | some .unaryExpression => unaryValue recur b s
  | _ => fail (.notAConstantForm s.typeName)

/-- Evaluation that goes a number of steps deep. -/
def evaluateWithin (p : Project) : Nat → Evaluator
  | 0, s, _ => fail (.tooDeep s.text)
  | depth + 1, s, b => p.valueOf (evaluateWithin p depth) b s.unwrap

/-- How many steps deep an evaluation goes. -/
def evaluationDepth : Nat := 33

/-- The value of an expression under bindings. -/
def evaluate (p : Project) (s : Site) (b : Bindings) : Evaluation :=
  p.evaluateWithin evaluationDepth s b

/-- Whether the evaluation of an expression looks into a file: it fails when the file is closed. -/
def looksInto (p : Project) (s : Site) (f : SourceFile) : Bool :=
  match { p with closed := [f.path] }.evaluate s [] with
  | .error (.closedFile _) => true
  | _ => false

/-- The project once expressions were evaluated: it has read the files they look into. -/
def afterEvaluating (p : Project) (sites : List Site) : Project :=
  let read := p.readable.filter fun f =>
    (p.known? f.path).isNone && f.exports.isOk && sites.any fun s => p.looksInto s f
  { p with known := p.known ++ read }

/-- The members of an enumeration with their values, in order. -/
def enumMembers (p : Project) (enumeration : Site) : Attempt (List (String × Value)) :=
  enumMembersBy (p.evaluateWithin (evaluationDepth - 1)) enumeration

/-- The values of the pairs of an object literal, and the pairs without one. -/
structure Fields where
  values : List (String × Value)
  failures : List (String × Site × Failure)

/-- The values of pairs, each under its key. -/
def fieldsOf (p : Project) (pairs : List Site) : Attempt Fields :=
  pairs.foldlM (fun (fields : Fields) pair => do
    match ← pair.memberKey?, pair.pairValue? with
    | some key, some v => match ← p.evaluate v [] with
      | .ok value => return { fields with values := assign key value fields.values }
      | .error f => return { fields with failures := fields.failures ++ [(key, v, f)] }
    | _, _ => return fields) ⟨[], []⟩

/-- The values of the pairs of an object literal. -/
def evaluateObject (p : Project) (object : Site) : Attempt Fields :=
  p.fieldsOf (object.named.filter (·.hasKind .pair))

end Project
end SettingsHarvest
