import SettingsHarvest.Datum
import SettingsHarvest.Text.LetterCase
import SettingsHarvest.Yaml.Node

/-! What YAML nodes stand for.

The text of a scalar is read by its tag, a sequence stands for a list and a mapping for a mapping,
in which a later value of a key counts. The entries that a merge key brings in come first, so that
every key of the mapping itself goes over them. -/
namespace SettingsHarvest.Yaml

def fault {α : Type} (f : Fault) : Except Problem α := .error (.fault f)

/-! ### Numbers -/

/-- The sign and the rest of a numeral, bars left out. -/
def numeral (cs : List Char) : Except Problem (Bool × List Char) :=
  match cs.filter (· != '_') with
  | [] => fault .emptyNumeral
  | '-' :: r => .ok (true, r)
  | '+' :: r => .ok (false, r)
  | r => .ok (false, r)

def integerIn (base : Nat) (cs : List Char) : Except Problem Int :=
  match Numeral.readInteger base (String.ofList cs) with
  | .ok n => .ok n
  | .error f => fault f

/-- Parts between colons as places to the base sixty. -/
def sexagesimal (cs : List Char) : Except Problem Int := do
  let parts ← (cs.splitOnP (· == ':')).mapM (integerIn 10)
  return parts.foldl (fun n part => n * 60 + part) 0

/-- Digits to the base eight, whose prefix may say so. -/
def octal (cs : List Char) : Except Problem Int :=
  match cs with
  | '0' :: x :: r => if x == 'o' || x == 'O' then
      match integerIn 8 r with
      | .ok n => .ok n
      | .error _ => integerIn 8 cs
    else integerIn 8 cs
  | cs => integerIn 8 cs

def integerOf (cs : List Char) : Except Problem Int := do
  let (negative, digits) ← numeral cs
  let n ← match digits with
    | [] => fault .emptyNumeral
    | ['0'] => pure 0
    | '0' :: 'b' :: r => integerIn 2 r
    | '0' :: 'x' :: r => integerIn 16 r
    | '0' :: _ => octal digits
    | _ => if digits.contains ':' then sexagesimal digits else integerIn 10 digits
  return if negative then -n else n

def decimalIn (cs : List Char) : Except Problem Binary64 :=
  match Numeral.readDecimal? (String.ofList cs) with
  | some x => .ok x
  | none => fault (.notDecimal (String.ofList cs))

/-- Parts between colons, the last one first, as places to the base sixty. -/
def sexagesimalDecimal (base : Nat) (sum : Binary64) : List (List Char) → Except Problem Binary64
  | [] => .ok sum
  | part :: rest => do
    let x ← decimalIn part
    sexagesimalDecimal (base * 60) (sum.add (x.mul (.ofInt base))) rest

def decimalOf (cs : List Char) : Except Problem Binary64 := do
  let (negative, digits) ← numeral (Text.lower (String.ofList cs)).toList
  let x ←
    if digits.isEmpty then fault .emptyNumeral
    else if digits == ".inf".toList then pure (.infinite false)
    else if digits == ".nan".toList then return .nan
    else if digits.contains ':' then
      sexagesimalDecimal 1 (.zero false) (digits.splitOnP (· == ':')).reverse
    else decimalIn digits
  return if negative then x.neg else x

/-! ### Dates and times -/

def isLeap (year : Nat) : Bool := year % 4 == 0 && (year % 100 != 0 || year % 400 == 0)

def daysIn (year month : Nat) : Nat :=
  if month == 2 then (if isLeap year then 29 else 28)
  else if [4, 6, 9, 11].contains month then 30 else 31

/-- What is impossible about a date or a time. -/
def Tag.Moment.flaw? (m : Tag.Moment) : Option String :=
  if m.year == 0 then some "year 0 is out of range"
  else if m.month == 0 || 12 < m.month then some "month must be in 1..12"
  else if m.day == 0 || daysIn m.year m.month < m.day then some "day is out of range for month"
  else match m.time with
    | none => none
    | some (hour, minute, second) =>
      if 23 < hour then some "hour must be in 0..23"
      else if 59 < minute then some "minute must be in 0..59"
      else if 59 < second then some "second must be in 0..59"
      else none

def decimalDigits (width n : Nat) : String :=
  let digits := Nat.toDigits 10 n
  String.ofList (List.replicate (width - digits.length) '0' ++ digits)

/-- A zone as messages show it; a zone behind universal time goes back a day first. -/
def shownZone (minutes : Int) : String :=
  if minutes == 0 then "datetime.timezone.utc"
  else
    let days := Int.fdiv minutes 1440
    let seconds := Int.fmod minutes 1440 * 60
    let parts := (if days == 0 then [] else [s!"days={days}"])
      ++ (if seconds == 0 then [] else [s!"seconds={seconds}"])
    "datetime.timezone(datetime.timedelta(" ++ ", ".intercalate parts ++ "))"

/-- A zone behind a time. -/
def plainZone (minutes : Int) : String :=
  (if minutes < 0 then "-" else "+") ++ decimalDigits 2 (minutes.natAbs / 60) ++ ":"
    ++ decimalDigits 2 (minutes.natAbs % 60)

def Tag.Moment.datum (m : Tag.Moment) : Datum :=
  let date := decimalDigits 4 m.year ++ "-" ++ decimalDigits 2 m.month ++ "-"
    ++ decimalDigits 2 m.day
  let numbers (ns : List Nat) := ", ".intercalate (ns.map fun (n : Nat) => Value.intText n)
  match m.time with
  | none => .other "date" ("datetime.date(" ++ numbers [m.year, m.month, m.day] ++ ")") date
  | some (hour, minute, second) =>
    let below := if m.fraction != 0 then [second, m.fraction]
      else if second != 0 then [second] else []
    let zone := match m.zone with
      | some z => ", tzinfo=" ++ shownZone z
      | none => ""
    let plain := date ++ " " ++ decimalDigits 2 hour ++ ":" ++ decimalDigits 2 minute ++ ":"
      ++ decimalDigits 2 second
      ++ (if m.fraction != 0 then "." ++ decimalDigits 6 m.fraction else "")
      ++ (m.zone.map plainZone).getD ""
    .other "datetime" ("datetime.datetime("
      ++ numbers ([m.year, m.month, m.day, hour, minute] ++ below) ++ zone ++ ")") plain

def momentOf (cs : List Char) : Except Problem Datum :=
  match Tag.moment? cs with
  | none => fault .notMoment
  | some m => match m.flaw? with
    | some reason => fault (.noSuchMoment reason)
    | none => .ok m.datum

/-! ### Nodes -/

def truthOf (text : String) : Except Problem Bool :=
  let word := Text.lower text
  if Tag.trueWords.contains word then .ok true
  else if Tag.falseWords.contains word then .ok false
  else fault (.missingKey word)

/-- What a scalar stands for. -/
def scalarDatum (tag : Tag) (text : String) : Except Problem Datum :=
  match tag with
  | .null => .ok .null
  | .truth => (truthOf text).map .truth
  | .integer => (integerOf text.toList).map .integer
  | .decimal => (decimalOf text.toList).map .decimal
  | .moment => momentOf text.toList
  | .text => .ok (.text text)
  | _ => .error .malformed

/-- What a node stands for as a key: an equals sign is a text. -/
def keyOf (tag : Tag) (d : Except Problem Datum) : Except Problem Datum :=
  if tag == .value then .ok (.text "=")
  else match d with
    | .ok d => if d.isKey then .ok d else .error .malformed
    | .error e => .error e

mutual
def Node.datum : Node → Except Problem Datum
  | .scalar tag text => scalarDatum tag text
  | .sequence tag items => do
    let found ← itemData items
    if tag == .list then return .list found else throw .malformed
  | .mapping tag pairs => do
    let (merged, own) ← pairData pairs
    if tag == .mapping then
      return .mapping ((merged ++ own).foldl (fun entries e => Datum.place e.1 e.2 entries) [])
    else throw .malformed

def itemData : List Node → Except Problem (List Datum)
  | [] => .ok []
  | node :: rest => do return (← node.datum) :: (← itemData rest)

/-- The entries that merge keys bring in, and the others. -/
def pairData : List (Node × Node) → Except Problem (List (Datum × Datum) × List (Datum × Datum))
  | [] => .ok ([], [])
  | (k, v) :: rest =>
    if k.tag == .merge then do
      let brought ← v.broughtIn
      let (merged, own) ← pairData rest
      return (brought ++ merged, own)
    else do
      let key ← keyOf k.tag k.datum
      let value ← v.datum
      let (merged, own) ← pairData rest
      return (merged, (key, value) :: own)

/-- The entries of a mapping that is merged into another, or of several, the last one first. -/
def Node.broughtIn : Node → Except Problem (List (Datum × Datum))
  | .mapping _ pairs => do
    let (merged, own) ← pairData pairs
    return merged ++ own
  | .sequence _ items => allBroughtIn items
  | .scalar .. => .error .malformed

def allBroughtIn : List Node → Except Problem (List (Datum × Datum))
  | [] => .ok []
  | node :: rest => do
    let later ← allBroughtIn rest
    match node with
    | .mapping _ pairs =>
      let (merged, own) ← pairData pairs
      return later ++ (merged ++ own)
    | _ => throw .malformed
end

/-- The datum of a text; nothing at all is a null. -/
def load (text : String) : Except Problem Datum := do
  match ← read text.toList with
  | some node => node.datum
  | none => return .null

end SettingsHarvest.Yaml
