import SettingsHarvest.Yaml.Cursor

/-! Tags, and the tags of plain scalars.

A scalar that is neither quoted nor tagged is tagged after its form. The forms are those of the
first version of the language: there are words for truth values beyond the usual two, a zero in front
makes a number octal, and colons separate the places of numbers to the base sixty. -/
namespace SettingsHarvest.Yaml

inductive Tag where
  | null | truth | integer | decimal | moment | text | list | mapping
  /-- A key whose entries join the mapping it stands in. -/
  | merge
  /-- An equals sign, which as a key is a text. -/
  | value
  | unknown
  deriving DecidableEq

namespace Tag

/-- What the names of common tags begin with. -/
def common : String := "tag:yaml.org,2002:"

def ofName (name : String) : Tag :=
  let names := [("null", null), ("bool", truth), ("int", integer), ("float", decimal),
    ("timestamp", moment), ("str", text), ("seq", list), ("map", mapping), ("merge", merge),
    ("value", value)]
  ((names.find? fun n => common ++ n.1 == name).map (·.2)).getD unknown

/-! ### Forms -/

def isNull (cs : List Char) : Bool :=
  ["", "~", "null", "Null", "NULL"].contains (String.ofList cs)

def trueWords : List String :=
  ["yes", "Yes", "YES", "true", "True", "TRUE", "on", "On", "ON"]

def falseWords : List String :=
  ["no", "No", "NO", "false", "False", "FALSE", "off", "Off", "OFF"]

def isTruth (cs : List Char) : Bool :=
  (trueWords ++ falseWords).contains (String.ofList cs)

def afterSign : List Char → List Char
  | '+' :: r | '-' :: r => r
  | r => r

private def isDigit (c : Char) : Bool := '0' ≤ c && c ≤ '9'

private def isDigitOrBar (c : Char) : Bool := isDigit c || c == '_'

/-- Places to the base sixty, each behind a colon and at least one of them, and what follows. -/
def sixtieths (cs : List Char) : Bool × List Char :=
  match cs with
  | ':' :: a :: b :: r =>
    if '0' ≤ a && a ≤ '5' && isDigit b then (true, (sixtieths r).2)
    else if isDigit a then (true, (sixtieths (b :: r)).2)
    else (false, cs)
  | [':', a] => if isDigit a then (true, []) else (false, cs)
  | cs => (false, cs)

def isInteger (cs : List Char) : Bool :=
  match afterSign cs with
  | '0' :: 'b' :: r => !r.isEmpty && r.all fun c => c == '0' || c == '1' || c == '_'
  | '0' :: 'x' :: r => !r.isEmpty && r.all fun c =>
    isDigitOrBar c || ('a' ≤ c && c ≤ 'f') || ('A' ≤ c && c ≤ 'F')
  | '0' :: r => r.all fun c => ('0' ≤ c && c ≤ '7') || c == '_'
  | c :: r =>
    isDigit c && match sixtieths (r.dropWhile isDigitOrBar) with
      | (_, rest) => rest.isEmpty
  | [] => false

/-- An exponent, which has a sign, or nothing. -/
def isExponent : List Char → Bool
  | [] => true
  | e :: s :: r => (e == 'e' || e == 'E') && (s == '+' || s == '-') && !r.isEmpty && r.all isDigit
  | _ => false

def isDecimal (cs : List Char) : Bool :=
  match cs with
  | '.' :: c :: r =>
    (isDigit c && isExponent (r.dropWhile isDigitOrBar))
      || [".inf", ".Inf", ".INF", ".nan", ".NaN", ".NAN"].contains (String.ofList cs)
  | cs => match afterSign cs with
    | '.' :: r => ["inf", "Inf", "INF"].contains (String.ofList r)
    | c :: r =>
      isDigit c && match sixtieths (r.dropWhile isDigitOrBar) with
        | (false, '.' :: r) => isExponent (r.dropWhile isDigitOrBar)
        | (true, '.' :: r) => r.all isDigitOrBar
        | _ => false
    | [] => false

/-! ### Dates and times -/

/-- A date, with a time of the day that may have a zone. -/
structure Moment where
  year : Nat
  month : Nat
  day : Nat
  time : Option (Nat × Nat × Nat)
  /-- Millionths of a second. -/
  fraction : Nat
  /-- Minutes ahead of universal time. -/
  zone : Option Int

/-- A number with at least and at most so many digits, and the rest. -/
def digits? (least most : Nat) (cs : List Char) : Option (Nat × List Char) :=
  let ds := (cs.take most).takeWhile isDigit
  if ds.length < least then none
  else some (ds.foldl (fun n c => n * 10 + (c.toNat - 0x30)) 0, cs.drop ds.length)

/-- What stands behind a given character. -/
def after? (x : Char) : List Char → Option (List Char)
  | c :: r => if c == x then some r else none
  | [] => none

/-- A zone: universal time, or hours and perhaps minutes with a sign. -/
def zone? (cs : List Char) : Option (Option Int) :=
  match cs.dropWhile isTabOrSpace with
  | [] => if cs.isEmpty then some none else none
  | ['Z'] => some (some 0)
  | s :: r => do
    let (hours, r) ← digits? 1 2 r
    let minutes ← match r with
      | [] => some 0
      | ':' :: r => (digits? 2 2 r).bind fun (m, r) => if r.isEmpty then some m else none
      | _ => none
    let ahead : Int := hours * 60 + minutes
    if s == '+' then some (some ahead) else if s == '-' then some (some (-ahead)) else none

/-- The first six digits behind a point, as millionths. -/
def millionths (cs : List Char) : Nat :=
  let ds := (cs.takeWhile isDigit).take 6
  (ds ++ List.replicate (6 - ds.length) '0').foldl (fun n c => n * 10 + (c.toNat - 0x30)) 0

/-- What separates a time from its date: a letter, or white space. -/
def timeStart? : List Char → Option (List Char)
  | 'T' :: r | 't' :: r => some r
  | c :: r => if isTabOrSpace c then some (r.dropWhile isTabOrSpace) else none
  | [] => none

def moment? (cs : List Char) : Option Moment := do
  let (year, r) ← digits? 4 4 cs
  let (month, r) ← (after? '-' r).bind (digits? 1 2)
  let (day, r) ← (after? '-' r).bind (digits? 1 2)
  if r.isEmpty then return ⟨year, month, day, none, 0, none⟩
  let (hour, r) ← (timeStart? r).bind (digits? 1 2)
  let (minute, r) ← (after? ':' r).bind (digits? 2 2)
  let (second, r) ← (after? ':' r).bind (digits? 2 2)
  let (fraction, r) := match r with
    | '.' :: r => (millionths r, r.dropWhile isDigit)
    | r => (0, r)
  let zone ← zone? r
  return ⟨year, month, day, some (hour, minute, second), fraction, zone⟩

/-- Whether a plain scalar is a date or a time; a date alone has two digits for months and days. -/
def isMoment (cs : List Char) : Bool :=
  match moment? cs with
  | some m => m.time.isSome || cs.length == 10
  | none => false

/-- The tag of a scalar after its form. -/
def ofPlain (cs : List Char) : Tag :=
  if isTruth cs then truth
  else if isDecimal cs then decimal
  else if isInteger cs then integer
  else if cs == ['<', '<'] then merge
  else if isNull cs then null
  else if isMoment cs then moment
  else if cs == ['='] then value
  else text

end Tag
end SettingsHarvest.Yaml
