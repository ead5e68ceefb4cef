import SettingsHarvest.Fault
import SettingsHarvest.Number.Numeral

/-! Escapes in string literals.

A backslash and what follows it stand for a character: a code point in braces, in four or in two
hexadecimal digits, up to three octal digits, one of the named control characters, or nothing at all
before a line break. Any other character stands for itself. `decode` reads a whole literal; code
points are numbers until the end, because two escapes can be the halves of one character. -/
namespace SettingsHarvest.Text

def isHexDigit (c : Char) : Bool := (Numeral.digitValue? c).isSome

private def isOctalDigit (c : Char) : Bool := '0' ≤ c && c ≤ '7'

/-- The value of hexadecimal or octal digits. -/
private def digitsIn (base : Nat) (cs : List Char) : Nat :=
  (Numeral.digitsValue? base 0 cs).getD 0

/-- The control character a letter names. -/
def namedEscape? : Char → Option Nat
  | 'n' => some 10
  | 't' => some 9
  | 'r' => some 13
  | 'b' => some 8
  | 'f' => some 12
  | 'v' => some 11
  | _ => none

/-- A code point has to be one. -/
def codePoint (n : Nat) : Except Fault (List Nat) :=
  if n ≤ 0x10ffff then .ok [n]
  else if n < 0x80000000 then .error .codePointOutOfRange
  else .error .codePointTooLarge

/-- What the text behind a backslash stands for, and how many of its characters belong to it. -/
def escape (cs : List Char) : Nat × Except Fault (List Nat) :=
  match cs with
  | [] => (0, .ok [0x5c])
  | 'u' :: '\x7b' :: r =>
    let digits := r.takeWhile isHexDigit
    if !digits.isEmpty && (r.drop digits.length).head? == some '\x7d' then
      (digits.length + 3, codePoint (digitsIn 16 digits))
    else (1, .ok ['u'.toNat])
  | 'u' :: r =>
    let digits := (r.take 4).takeWhile isHexDigit
    if digits.length == 4 then (5, codePoint (digitsIn 16 digits)) else (1, .ok ['u'.toNat])
  | 'x' :: r =>
    let digits := (r.take 2).takeWhile isHexDigit
    if digits.length == 2 then (3, codePoint (digitsIn 16 digits)) else (1, .ok ['x'.toNat])
  | '\r' :: '\n' :: _ => (2, .ok [])
  | c :: _ =>
    let digits := (cs.take 3).takeWhile isOctalDigit
    if !digits.isEmpty then (digits.length, codePoint (digitsIn 8 digits))
    else match namedEscape? c with
      | some n => (1, .ok [n])
      | none =>
        if c == '\n' || c == '\r' || c == '\u2028' || c == '\u2029' then (1, .ok [])
        else (1, .ok [c.toNat])

/-- The code points a literal denotes; the first `skip` characters are already used up. -/
def codePoints : Nat → List Char → Except Fault (List Nat)
  | _, [] => .ok []
  | skip + 1, _ :: r => codePoints skip r
  | 0, c :: r =>
    if c == '\\' then
      let (used, points) := escape r
      match points, codePoints used r with
      | .ok a, .ok b => .ok (a ++ b)
      | .error f, _ => .error f
      | _, .error f => .error f
    else match codePoints 0 r with
      | .ok b => .ok (c.toNat :: b)
      | .error f => .error f

private def isHighHalf (n : Nat) : Bool := 0xd800 ≤ n && n < 0xdc00

private def isLowHalf (n : Nat) : Bool := 0xdc00 ≤ n && n < 0xe000

/-- Code points as characters; two halves in a row are one character. A text holds whole characters, so
a half on its own has no place in one; no source that is read spells it, and it would come out as zero. -/
def characters : List Nat → List Char
  | [] => []
  | [n] => [Char.ofNat n]
  | n :: m :: r =>
    if isHighHalf n && isLowHalf m then
      Char.ofNat (0x10000 + (n - 0xd800) * 0x400 + (m - 0xdc00)) :: characters r
    else Char.ofNat n :: characters (m :: r)

/-- The characters the body of a string literal denotes. -/
def decode (body : List Char) : Except Fault (List Char) := (codePoints 0 body).map characters

end SettingsHarvest.Text
