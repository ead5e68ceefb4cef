import SettingsHarvest.Fault
import SettingsHarvest.Number.Shortest
import SettingsHarvest.Text.Digit

/-! Reading numbers from text.

`readInteger?` reads an integer in a given base, or in the base its prefix names; then a decimal
numeral may not start with a zero unless it is zero. `readDecimal?` reads a decimal number, an
infinity or what is no number. Both allow white space around and a sign in front, and take the
decimal digits of every script. Integers and floating-point numbers stay apart, and `Numeral.parse`
reads a numeral of the source language by way of both. -/
namespace SettingsHarvest.Numeral
open Text

/-- Decimal digits of all scripts as ASCII digits, all white space as spaces. A plain text is left as
it is. -/
def plain (cs : List Char) : List Char :=
  if cs.all fun c => c.toNat < 0x80 then cs
  else cs.map fun c =>
    if c.toNat < 0x80 then c
    else if isSpace c then ' '
    else match decimalValue? c with
      | some d => Char.ofNat (0x30 + d)
      | none => '?'

def isPlainSpace (c : Char) : Bool := c == ' ' || ('\t' ≤ c && c ≤ '\r')

def trim (cs : List Char) : List Char :=
  ((cs.dropWhile isPlainSpace).reverse.dropWhile isPlainSpace).reverse

/-- A sign in front: whether it is a minus, and the rest. -/
def splitSign : List Char → Bool × List Char
  | '-' :: r => (true, r)
  | '+' :: r => (false, r)
  | r => (false, r)

/-- The value of a digit in bases up to sixteen. -/
def digitValue? (c : Char) : Option Nat :=
  if '0' ≤ c && c ≤ '9' then some (c.toNat - 0x30)
  else if 'a' ≤ c && c ≤ 'f' then some (c.toNat - 0x57)
  else if 'A' ≤ c && c ≤ 'F' then some (c.toNat - 0x37)
  else none

/-- Digits in a base, on top of what was read before them. -/
def digitsValue? (base : Nat) : Nat → List Char → Option Nat
  | acc, [] => some acc
  | acc, c :: r => match digitValue? c with
    | some d => if d < base then digitsValue? base (acc * base + d) r else none
    | none => none

/-- The number that digits, at least one, denote in a base. -/
def natural? (base : Nat) (cs : List Char) : Option Nat :=
  if cs.isEmpty then none else digitsValue? base 0 cs

/-- The base a prefix names, and the digits behind it. -/
def splitBase : List Char → Nat × List Char
  | '0' :: x :: r =>
    if x == 'x' || x == 'X' then (16, r)
    else if x == 'o' || x == 'O' then (8, r)
    else if x == 'b' || x == 'B' then (2, r)
    else (10, '0' :: x :: r)
  | cs => (10, cs)

/-- An integer in a base, base 0 being the one its prefix names. -/
def readInteger (base : Nat) (text : String) : Except Fault Int :=
  let (negative, body) := splitSign (trim (plain text.toList))
  let (b, digits) := if base == 0 then splitBase body else (base, body)
  let bad := Fault.notInteger base text
  let leadingZero := base == 0 && b == 10 && digits.head? == some '0'
    && digits.any (· != '0')
  match natural? b digits with
  | none => .error bad
  | some n =>
    if leadingZero then .error bad
    else if b == 10 && digits.length > longestNumeral then
      .error (.overlongNumeral (some digits.length))
    else .ok (Binary64.signed negative n)

private def lowerAscii (c : Char) : Char :=
  if 'A' ≤ c && c ≤ 'Z' then Char.ofNat (c.toNat + 0x20) else c

/-- The exponent behind a mantissa: nothing, or a mark with a signed integer. -/
def exponent? : List Char → Option Int
  | [] => some 0
  | c :: r =>
    if lowerAscii c != 'e' then none
    else
      let (negative, digits) := splitSign r
      (natural? 10 digits).map (Binary64.signed negative)

private def isAsciiDigit (c : Char) : Bool := '0' ≤ c && c ≤ '9'

/-- A decimal number without a sign. -/
def magnitude? (negative : Bool) (cs : List Char) : Option Binary64 :=
  let word := cs.map lowerAscii
  if word == "inf".toList || word == "infinity".toList then some (.infinite negative)
  else if word == "nan".toList then some .nan
  else
    let whole := cs.takeWhile isAsciiDigit
    let rest := cs.dropWhile isAsciiDigit
    let (fraction, rest) := match rest with
      | '.' :: r => (r.takeWhile isAsciiDigit, r.dropWhile isAsciiDigit)
      | r => ([], r)
    match natural? 10 (whole ++ fraction), exponent? rest with
    | some n, some e => some (.ofDecimal negative n (e - fraction.length))
    | _, _ => none

/-- A decimal number, an infinity, or what is no number. -/
def readDecimal? (text : String) : Option Binary64 :=
  let (negative, body) := splitSign (trim (plain text.toList))
  magnitude? negative body

end SettingsHarvest.Numeral
