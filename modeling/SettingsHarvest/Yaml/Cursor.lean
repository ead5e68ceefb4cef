import SettingsHarvest.Fault

/-! Places in a YAML text.

Structure hangs on columns, so a `Cursor` keeps, with the rest of the text, the line and column it
has come to, and how many characters are behind it. Space between tokens is made of spaces, line
breaks and comments; a tab is none of these. -/
namespace SettingsHarvest.Yaml

/-- Why a text has no value. -/
inductive Problem where
  /-- The text is no document, or has parts that stand for nothing. -/
  | malformed
  /-- A scalar has the form of a value that does not exist. -/
  | fault (f : Fault)

/-! ### Characters -/

def isBreak (c : Char) : Bool := c == '\n' || c == '\u0085' || c == '\u2028' || c == '\u2029'

/-- What a line break leaves in a scalar. -/
def breakText (c : Char) : Char := if c == '\u0085' then '\n' else c

def isTabOrSpace (c : Char) : Bool := c == ' ' || c == '\t'

/-- Whether a word ends here: at white space, or where the text ends. -/
def endsWord : List Char → Bool
  | [] => true
  | c :: _ => isTabOrSpace c || isBreak c

/-- The like, where a tab does not count. -/
def endsStrictly : List Char → Bool
  | [] => true
  | c :: _ => c == ' ' || isBreak c

/-- Characters that a text may hold. -/
def isAllowed (c : Char) : Bool :=
  let n := c.toNat
  n == 0x9 || n == 0xa || n == 0xd || (0x20 ≤ n && n ≤ 0x7e) || n == 0x85
    || (0xa0 ≤ n && n ≤ 0xd7ff) || (0xe000 ≤ n && n ≤ 0xfffd) || 0x10000 ≤ n

/-- Characters of names of anchors and handles. -/
def isNameChar (c : Char) : Bool := c.isAlphanum || c == '-' || c == '_'

/-! ### Cursors -/

structure Cursor where
  rest : List Char
  index : Nat
  line : Nat
  column : Nat

namespace Cursor

/-- At the start of a text; a mark of the byte order in front does not count. -/
def start : List Char → Cursor
  | '\ufeff' :: rest => ⟨rest, 1, 0, 0⟩
  | rest => ⟨rest, 0, 0, 0⟩

def next (c : Cursor) : Option Char := c.rest.head?

/-- Past characters of one line that come next. -/
def past (c : Cursor) (taken : List Char) : Cursor :=
  ⟨c.rest.drop taken.length, c.index + taken.length, c.line,
    c.column + (taken.filter (· != '\ufeff')).length⟩

/-- Past one character that is no line break. -/
def skip (c : Cursor) : Cursor := c.past (c.rest.take 1)

/-- Past a line break. -/
def newLine (c : Cursor) : Cursor := ⟨c.rest.drop 1, c.index + 1, c.line + 1, 0⟩

def span (c : Cursor) (p : Char → Bool) : List Char × Cursor :=
  let taken := c.rest.takeWhile p
  (taken, c.past taken)

/-- Whether a marker of the start or end of a document stands here. -/
def atMarker (c : Cursor) : Bool :=
  c.column == 0 && match c.rest with
    | '-' :: '-' :: '-' :: r => endsWord r
    | '.' :: '.' :: '.' :: r => endsWord r
    | _ => false

/-- Whether nothing of the document is left. -/
def atEnd (c : Cursor) : Bool := c.rest.isEmpty || c.atMarker

/-- Whether an indicator stands here, with white space behind it. -/
def atIndicator (c : Cursor) (indicator : Char) : Bool :=
  match c.rest with
  | x :: r => x == indicator && endsWord r
  | [] => false

/-! ### Space between tokens -/

/-- Past spaces, comments and line breaks; and whether there was a line break. -/
def gapFrom (comment broke : Bool) (index line column : Nat) : List Char → Cursor × Bool
  | [] => (⟨[], index, line, column⟩, broke)
  | c :: r =>
    if isBreak c then gapFrom false true (index + 1) (line + 1) 0 r
    else if comment || c == '#' then gapFrom true broke (index + 1) line (column + 1) r
    else if c == ' ' then gapFrom false broke (index + 1) line (column + 1) r
    else (⟨c :: r, index, line, column⟩, broke)

def gap (c : Cursor) : Cursor × Bool := gapFrom false false c.index c.line c.column c.rest

/-- Past blank lines, at their start and in front of what follows them; and their line breaks. -/
def blankLinesFrom (blank : Char → Bool) (breaks : List Char) (index line column : Nat) :
    List Char → List Char × Cursor
  | [] => (breaks.reverse, ⟨[], index, line, column⟩)
  | c :: r =>
    if isBreak c then blankLinesFrom blank (breakText c :: breaks) (index + 1) (line + 1) 0 r
    else if blank c then blankLinesFrom blank breaks (index + 1) line (column + 1) r
    else (breaks.reverse, ⟨c :: r, index, line, column⟩)

def blankLines (c : Cursor) (blank : Char → Bool) : List Char × Cursor :=
  blankLinesFrom blank [] c.index c.line c.column c.rest

end Cursor
end SettingsHarvest.Yaml
