import SettingsHarvest.Text.Digit
import SettingsHarvest.Text.Flaw

/-! Layouts: how a text is set in a field.

A layout gives a width with the side the text stands on and the character that fills the rest, and a
greatest length. What layouts say about numbers (signs, separators, bases) is read as well, but a
text refuses it. -/
namespace SettingsHarvest.Text

structure Layout where
  fill : Char
  align : Char
  sign : Option Char
  zeroSign : Bool
  alternate : Bool
  width : Option Nat
  separator : Option Char
  precision : Option Nat
  type : Char

namespace Layout

/-! ### Reading -/

def isAlignment (c : Char) : Bool := c == '<' || c == '>' || c == '=' || c == '^'

/-- The largest number a layout or a position may hold. -/
def largestCount : Nat := 9223372036854775807

/-- The number that decimal digits of any script spell. -/
def digitsValue (ds : List Char) : Nat :=
  ds.foldl (fun n c => 10 * n + (decimalValue? c).getD 0) 0

def isDecimal (c : Char) : Bool := (decimalValue? c).isSome

/-- A number in front, if digits stand there, and what is behind it. -/
def count? (cs : List Char) : Except LayoutFlaw (Option Nat × List Char) :=
  let digits := cs.takeWhile isDecimal
  if digits.isEmpty then .ok (none, cs)
  else if largestCount < digitsValue digits then .error .tooManyDigits
  else .ok (some (digitsValue digits), cs.dropWhile isDecimal)

/-- Fill and alignment in front, where they are given. -/
def readAlignment : List Char → (Option Char × Option Char) × List Char
  | f :: a :: rest =>
    if isAlignment a then ((some f, some a), rest)
    else if isAlignment f then ((none, some f), a :: rest)
    else ((none, none), f :: a :: rest)
  | [a] => if isAlignment a then ((none, some a), []) else ((none, none), [a])
  | [] => ((none, none), [])

/-- One of some characters in front. -/
def readMark (marks : List Char) : List Char → Option Char × List Char
  | c :: rest => if marks.contains c then (some c, rest) else (none, c :: rest)
  | [] => (none, [])

/-- The separator of thousands; there is only one. -/
def readSeparator (cs : List Char) : Except LayoutFlaw (Option Char × List Char) :=
  let (comma, cs) := readMark [','] cs
  let (bar, cs) := readMark ['_'] cs
  if comma.isSome && bar.isSome then .error .twoSeparators
  else if bar.isSome && cs.head? == some ',' then .error .twoSeparators
  else .ok (comma.or bar, cs)

def readPrecision (cs : List Char) : Except LayoutFlaw (Option Nat × List Char) :=
  match cs with
  | '.' :: rest => do
    let (n, rest) ← count? rest
    if n.isNone then throw .noPrecision
    return (n, rest)
  | cs => .ok (none, cs)

/-- The types of numbers that can be written with a separator. -/
def separable (mark type : Char) : Bool :=
  "deEfFgG%".toList.contains type || (mark == '_' && "boxX".toList.contains type)

def read (layout : List Char) : Except LayoutFlaw Layout := do
  let ((fill, align), cs) := readAlignment layout
  let (sign, cs) := readMark [' ', '+', '-'] cs
  let (zeroSign, cs) := readMark ['z'] cs
  let (alternate, cs) := readMark ['#'] cs
  let (zero, cs) := if fill.isSome then (none, cs) else readMark ['0'] cs
  let (width, cs) ← count? cs
  let (separator, cs) ← readSeparator cs
  let (precision, cs) ← readPrecision cs
  let type ← match cs with
    | [] => pure 's'
    | [t] => pure t
    | _ => throw (.malformed layout)
  match separator with
  | some mark => if !separable mark type then throw (.separator mark type)
  | none => pure ()
  return ⟨(fill.or zero).getD ' ', align.getD '<', sign, zeroSign.isSome, alternate.isSome, width,
    separator, precision, type⟩

/-! ### Setting -/

/-- Fails for what a text cannot be set by. -/
def check (l : Layout) : Except LayoutFlaw Unit := do
  if l.type != 's' then throw (.unknownType l.type)
  if l.sign == some ' ' then throw .space
  if l.sign.isSome then throw .sign
  if l.zeroSign then throw .zeroSign
  if l.alternate then throw .alternate
  if l.align == '=' then throw .numericAlignment

/-- How much of some room is left of a text. -/
def leftShare (align : Char) (room : Nat) : Nat :=
  if align == '>' then room else if align == '^' then room / 2 else 0

/-- A text cut to the greatest length and filled up to the width. -/
def set (l : Layout) (text : List Char) : List Char :=
  let text := match l.precision with
    | some n => text.take n
    | none => text
  let room := l.width.getD 0 - text.length
  let left := leftShare l.align room
  List.replicate left l.fill ++ text ++ List.replicate (room - left) l.fill

end Layout

/-- A text set by a layout. -/
def laidOut (layout text : List Char) : Except LayoutFlaw (List Char) := do
  let l ← Layout.read layout
  l.check
  return l.set text

end SettingsHarvest.Text
