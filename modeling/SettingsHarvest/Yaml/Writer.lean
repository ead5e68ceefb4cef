import SettingsHarvest.Value
import SettingsHarvest.Yaml.Tag

/-! Values as YAML text.

Lists and records are written in blocks, empty ones in brackets. The items of a list under a key
stand in the key's column, and all else stands two columns further right. A text is written plain if
reading would give it back, between single quotes if quotes are all it needs, and between double
quotes otherwise. Lines are broken at single spaces beyond the width. A key that is empty, long or of
several lines is marked as a key and has its value on the next line. -/
namespace SettingsHarvest.Yaml.Writer

def width : Nat := 80

def spaces (n : Nat) : List Char := List.replicate n ' '

/-! ### Styles -/

/-- Characters that need no escape, line breaks among them. -/
def isOrdinary (c : Char) : Bool :=
  let n := c.toNat
  c == '\n' || (0x20 ≤ n && n ≤ 0x7e) || n == 0x85
    || (n != 0xfeff && ((0xa0 ≤ n && n ≤ 0xd7ff) || (0xe000 ≤ n && n ≤ 0xfffd)
      || (0x10000 ≤ n && n < 0x10ffff)))

/-- Whether a text opens with a marker of a document. -/
def startsWithMarker : List Char → Bool
  | '-' :: '-' :: '-' :: _ | '.' :: '.' :: '.' :: _ => true
  | _ => false

/-- Whether the first character stands for structure. -/
def startsWithIndicator : List Char → Bool
  | [] => false
  | c :: r => "#,[]\x7b\x7d&*!|>'\"%@`".toList.contains c
    || ((c == '?' || c == ':' || c == '-') && endsWord r)

/-- Whether a character behind the first stands for structure: a colon at the end of a word, or a
number sign at the start of one. -/
def holdsIndicator (afterSpace : Bool) : List Char → Bool
  | [] => false
  | c :: r => (c == ':' && endsWord r) || (c == '#' && afterSpace)
    || holdsIndicator (endsWord [c]) r

def isEdgeSpace (c : Option Char) : Bool := c.any fun c => c == ' ' || isBreak c

/-- Whether a space stands directly behind a line break, and the other way round. -/
def meets (p q : Char → Bool) : List Char → Bool
  | c :: d :: r => (p c && q d) || meets p q (d :: r)
  | _ => false

inductive Style where
  | plain | single | double
  deriving DecidableEq

/-- The style a text is written in; `key` if it is a key on a line with its value. -/
def styleOf (key : Bool) (cs : List Char) : Style :=
  let broken := cs.any isBreak
  let special := !cs.all isOrdinary || meets (· == ' ') isBreak cs
  let plain := !cs.isEmpty && Tag.ofPlain cs == .text && !broken && !special
    && !isEdgeSpace cs.head? && !isEdgeSpace cs.getLast? && !startsWithMarker cs
    && !startsWithIndicator cs && !holdsIndicator (endsWord (cs.take 1)) (cs.drop 1)
  if plain then .plain
  else if special || meets isBreak (· == ' ') cs || (key && broken) then .double
  else .single

/-! ### Text -/

/-- A line break, and the spaces in front of the next line. -/
def newLine (indent : Nat) : List Char := '\n' :: spaces indent

/-- Plain text from a column on, with a number of spaces behind. -/
def plainText (split : Bool) (indent column : Nat) : Nat → List Char → List Char
  | n, [] => spaces n
  | n, c :: r =>
    if c == ' ' then plainText split indent column (n + 1) r
    else if n == 1 && width < column && split then
      newLine indent ++ c :: plainText split indent (indent + 1) 0 r
    else spaces n ++ c :: plainText split indent (column + n + 1) 0 r

/-- What is not yet written of a text between single quotes. -/
inductive Pending where
  | nothing
  /-- Spaces; whether they stand at the start of the text. -/
  | spaces (count : Nat) (atStart : Bool)
  /-- Line breaks, backwards. -/
  | breaks (seen : List Char)

/-- Line breaks between single quotes: one more than reading keeps. -/
def breakLines (indent : Nat) (breaks : List Char) : List Char :=
  (if breaks.head? == some '\n' then ['\n'] else []) ++ breaks ++ spaces indent

/-- What is pending in front of a character, or at the end; and the column behind it. -/
def flush (split : Bool) (indent column : Nat) (atEnd : Bool) : Pending → List Char × Nat
  | .nothing => ([], column)
  | .spaces n atStart =>
    if n == 1 && width < column && split && !atStart && !atEnd then (newLine indent, indent)
    else (spaces n, column + n)
  | .breaks seen => (breakLines indent seen.reverse, indent)

/-- Text between single quotes from a column on. -/
def singleText (split : Bool) (indent column : Nat) (first : Bool) :
    Pending → List Char → List Char
  | p, [] => (flush split indent column true p).1
  | p, c :: r =>
    if c == ' ' then match p with
      | .spaces n atStart => singleText split indent column false (.spaces (n + 1) atStart) r
      | p =>
        let (text, column) := flush split indent column false p
        text ++ singleText split indent column false (.spaces 1 first) r
    else if isBreak c then match p with
      | .breaks seen => singleText split indent column false (.breaks (c :: seen)) r
      | p =>
        let (text, column) := flush split indent column false p
        text ++ singleText split indent column false (.breaks [c]) r
    else
      let (text, column) := flush split indent column false p
      if c == '\'' then
        text ++ '\'' :: '\'' :: singleText split indent (column + 2) false .nothing r
      else text ++ c :: singleText split indent (column + 1) false .nothing r

/-- The letter that stands for a character behind a backslash. -/
def letterFor? (c : Char) : Option Char :=
  [('\x00', '0'), ('\x07', 'a'), ('\x08', 'b'), ('\t', 't'), ('\n', 'n'), ('\x0b', 'v'),
    ('\x0c', 'f'), ('\r', 'r'), ('\x1b', 'e'), ('"', '"'), ('\\', '\\'), ('\u0085', 'N'),
    ('\u00a0', '_'), ('\u2028', 'L'), ('\u2029', 'P')].lookup c

/-- Characters written as they are between double quotes. -/
def isDoubleOrdinary (c : Char) : Bool :=
  let n := c.toNat
  !(['"', '\\', '\u0085', '\u2028', '\u2029', '\ufeff'].contains c)
    && ((0x20 ≤ n && n ≤ 0x7e) || (0xa0 ≤ n && n ≤ 0xd7ff) || (0xe000 ≤ n && n ≤ 0xfffd))

def upperHex (digits n : Nat) : List Char :=
  (Text.hex digits n).map fun c => if 'a' ≤ c && c ≤ 'f' then Char.ofNat (c.toNat - 0x20) else c

def escape (c : Char) : List Char :=
  match letterFor? c with
  | some l => ['\\', l]
  | none =>
    if c.toNat ≤ 0xff then '\\' :: 'x' :: upperHex 2 c.toNat
    else if c.toNat ≤ 0xffff then '\\' :: 'u' :: upperHex 4 c.toNat
    else '\\' :: 'U' :: upperHex 8 c.toNat

/-- A line break that reading drops; a space behind it is escaped. -/
def joinLine (indent : Nat) (next : Option Char) : List Char × Nat :=
  if next == some ' ' then ('\\' :: newLine indent ++ ['\\'], indent + 1)
  else ('\\' :: newLine indent, indent)

/-- Text between double quotes from a column on. Between the first character and the last, lines
are broken at spaces and next to escapes. -/
def doubleText (split : Bool) (indent column : Nat) (first edge : Bool) : List Char → List Char
  | [] => []
  | c :: r =>
    let inner := split && !first && !r.isEmpty
    if isDoubleOrdinary c then
      if inner && (c == ' ' || edge) && width < column then
        let (text, column) := joinLine indent (some c)
        text ++ c :: doubleText split indent (column + 1) false false r
      else c :: doubleText split indent (column + 1) false false r
    else
      let e := escape c
      if inner && width + 1 < column + e.length then
        let (text, column) := joinLine indent r.head?
        e ++ text ++ doubleText split indent column false true r
      else e ++ doubleText split indent (column + e.length) false true r

/-- A text from a column on; `key` if it is a key on a line with its value. -/
def scalarText (key : Bool) (indent column : Nat) (s : String) : List Char :=
  let cs := s.toList
  match styleOf key cs with
  | .plain => plainText (!key) indent column 0 cs
  | .single => '\'' :: singleText (!key) indent (column + 1) true .nothing cs ++ ['\'']
  | .double => '"' :: doubleText (!key) indent (column + 1) true true cs ++ ['"']

/-- A number with a point wherever it has an exponent. -/
def decimalText : Binary64 → List Char
  | .infinite negative => (if negative then "-.inf" else ".inf").toList
  | .nan => ".nan".toList
  | x =>
    let cs := x.decimalText.toList
    if cs.contains '.' then cs
    else cs.flatMap fun c => if c == 'e' then ['.', '0', 'e'] else [c]

/-! ### Structure -/

/-- Whether a key stands on a line with its value. -/
def isSimpleKey (k : String) : Bool :=
  k.length + 5 < 128 && !k.isEmpty && !k.toList.any isBreak

/-- What a value is written as on the line it starts on, if that is all of it. -/
def inline? (indent column : Nat) : Value → Option (List Char)
  | .null => some "null".toList
  | .truth b => some (if b then "true" else "false").toList
  | .integer n => some (Value.intText n).toList
  | .decimal x => some (decimalText x)
  | .text s => some (scalarText false (indent + 2) column s)
  | .list [] => some ['[', ']']
  | .record [] => some ['\x7b', '\x7d']
  | _ => none

mutual
/-- The items of a list in a column, the first of which is reached already. -/
def items (indent : Nat) : List Value → List Char
  | [] => []
  | v :: rest =>
    '-' :: nested indent v ++ (if rest.isEmpty then [] else spaces indent) ++ items indent rest

/-- The fields of a record in a column, the first of which is reached already. -/
def fields (indent : Nat) : List (String × Value) → List Char
  | [] => []
  | (k, v) :: rest =>
    (if isSimpleKey k then
      let key := scalarText true (indent + 2) indent k
      key ++ ':' :: under indent (indent + key.length + 1) v
    else
      '?' :: ' ' :: scalarText false (indent + 2) (indent + 2) k ++ newLine indent
        ++ ':' :: nested indent v)
    ++ (if rest.isEmpty then [] else spaces indent) ++ fields indent rest

/-- A value behind a mark in a column: structure starts on the line of the mark. -/
def nested (indent : Nat) (v : Value) : List Char :=
  match inline? indent (indent + 2) v with
  | some text => ' ' :: text ++ ['\n']
  | none => match v with
    | .list vs => ' ' :: items (indent + 2) vs
    | .record fs => ' ' :: fields (indent + 2) fs
    | _ => []

/-- A value behind a key in a column: structure starts on the next line. -/
def under (indent column : Nat) (v : Value) : List Char :=
  match inline? indent (column + 1) v with
  | some text => ' ' :: text ++ ['\n']
  | none => match v with
    | .list vs => newLine indent ++ items indent vs
    | .record fs => newLine (indent + 2) ++ fields (indent + 2) fs
    | _ => []
end

/-- A value as a document. -/
def write (v : Value) : String :=
  String.ofList <| match inline? 0 0 v with
    | some text => text ++ ['\n']
    | none => match v with
      | .list vs => items 0 vs
      | .record fs => fields 0 fs
      | _ => []

end SettingsHarvest.Yaml.Writer
