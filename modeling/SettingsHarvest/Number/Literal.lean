import SettingsHarvest.Value

/-! Numerals of the source language.

Separators are dropped first. A big integer ends in `n`, a prefix names base 16, 8 or 2, digits below
eight behind a zero are octal, other digits are decimal, and all else is read as a decimal number. -/
namespace SettingsHarvest.Numeral

/-- A text without the one line break it may end in. -/
def chomp (cs : List Char) : List Char :=
  if cs.getLast? == some '\n' then cs.dropLast else cs

def isLegacyOctal (cs : List Char) : Bool :=
  match chomp cs with
  | '0' :: r => !r.isEmpty && r.all fun c => '0' ≤ c && c ≤ '7'
  | _ => false

def isDecimalInteger (cs : List Char) : Bool :=
  let digits := chomp cs
  !digits.isEmpty && digits.all fun c => '0' ≤ c && c ≤ '9'

def hasBasePrefix (cs : List Char) : Bool :=
  match cs with
  | '0' :: x :: _ => x == 'x' || x == 'o' || x == 'b'
  | _ => false

/-- The number a numeral denotes. -/
def parse (numeral : String) : Except Fault Value :=
  let cs := numeral.toList.filter (· != '_')
  let text := String.ofList cs
  let lowered := Text.lower text
  if cs.getLast? == some 'n' then (readInteger 0 (String.ofList cs.dropLast)).map .integer
  else if hasBasePrefix lowered.toList then (readInteger 0 lowered).map .integer
  else if isLegacyOctal cs then (readInteger 8 text).map .integer
  else if isDecimalInteger cs then (readInteger 10 text).map .integer
  else match readDecimal? text with
    | some x => .ok (Value.decimal x).normalize
    | none => .error (.notDecimal text)

end SettingsHarvest.Numeral
