import SettingsHarvest.Syntax.Node

/-! Tokens.

`Cursor.at` reads one token off the front of a text and remembers both where the token starts and
what follows it, because two forms are not decided by their first characters: a slash opens a
regular expression where an operand is due and divides everywhere else, and a closing angle bracket
of a type may be the first half of a shift operator. The reader re-reads from `start` in those
places. White space and comments in front of a token travel with it, together with the one thing
statement ends depend on: whether a line break is among them. -/
namespace SettingsHarvest.Syntax

/-! ### Characters -/

/-- White space of a source text, line ends included. -/
def isBlank (c : Char) : Bool :=
  c == ' ' || ('\t' ≤ c && c ≤ '\r') || c == '\u0085' || c == '\u00a0' || c == '\u1680'
    || ('\u2000' ≤ c && c ≤ '\u200b') || c == '\u2028' || c == '\u2029' || c == '\u202f'
    || c == '\u205f' || c == '\u2060' || c == '\u3000' || c == '\ufeff'

/-- The characters that end a line and with it a line comment. -/
def isLineEnd (c : Char) : Bool :=
  c == '\n' || c == '\r' || c == '\u2028' || c == '\u2029'

/-- Everything that is neither white space nor a control character nor punctuation can be in a
name; a backslash is let in for names spelled with escapes. -/
def isNamePart (c : Char) : Bool :=
  !(c.toNat < 0x20 || isBlank c
    || [':', ';', '`', '"', '\'', '@', '#', '.', ',', '|', '^', '&', '<', '=', '>', '+', '-', '*',
        '/', '%', '?', '!', '~', '(', ')', '[', ']', '\x7b', '\x7d'].contains c)

def isNameStart (c : Char) : Bool := isNamePart c && !c.isDigit

/-! ### Tokens -/

inductive Shape where
  | word | privateName | numeral | quoted | mark | finish
  deriving DecidableEq

structure Token where
  /-- Comments in front of the token, in source order. -/
  comments : List Node
  /-- White space between the last comment, or the token before, and this token. -/
  blank : String
  /-- A line break is among what stands in front. -/
  newline : Bool
  shape : Shape
  text : String

/-! ### What stands in front of a token -/

/-- How far reading the space between two tokens has come. Texts are kept backwards. -/
inductive Gap where
  | blank (seen : List Char)
  | line (before seen : List Char)
  | block (before seen : List Char)

private def commentNode (before seen : List Char) : Node :=
  .leaf .comment none (String.ofList before.reverse) (String.ofList seen.reverse)

/-- Skips white space and comments. Answers the comments (backwards), the white space after the
last of them (backwards), whether a line break was met, and the rest. -/
def skipGap (comments : List Node) (newline : Bool) :
    Gap → List Char → List Node × List Char × Bool × List Char
  | .blank seen, '/' :: '/' :: r => skipGap comments newline (.line seen ['/', '/']) r
  | .blank seen, '/' :: '*' :: r => skipGap comments newline (.block seen ['*', '/']) r
  | .blank seen, c :: r =>
    if isBlank c then skipGap comments (newline || isLineEnd c) (.blank (c :: seen)) r
    else (comments, seen, newline, c :: r)
  | .blank seen, [] => (comments, seen, newline, [])
  | .line before seen, c :: r =>
    if isLineEnd c then skipGap (commentNode before seen :: comments) true (.blank [c]) r
    else skipGap comments newline (.line before (c :: seen)) r
  | .line before seen, [] => (commentNode before seen :: comments, [], newline, [])
  | .block before seen, '*' :: '/' :: r =>
    skipGap (commentNode before ('/' :: '*' :: seen) :: comments) newline (.blank []) r
  | .block before seen, c :: r =>
    skipGap comments (newline || isLineEnd c) (.block before (c :: seen)) r
  | .block before seen, [] => (commentNode before seen :: comments, [], newline, [])

/-! ### Literals -/

/-- The body of a quoted text with its closing quote, then the rest; a backslash takes the next
character with it. -/
def quotedTail (quote : Char) : List Char → List Char × List Char
  | '\\' :: c :: r => let (t, rest) := quotedTail quote r; ('\\' :: c :: t, rest)
  | c :: r =>
    if c == quote then ([c], r)
    else let (t, rest) := quotedTail quote r; (c :: t, rest)
  | [] => ([], [])

private def isDigitOrSeparator (c : Char) : Bool := c.isDigit || c == '_'

private def isRadixDigit (c : Char) : Bool :=
  c.isDigit || c == '_' || ('a' ≤ c && c ≤ 'f') || ('A' ≤ c && c ≤ 'F')

private def spanChars (p : Char → Bool) (cs : List Char) : List Char × List Char :=
  (cs.takeWhile p, cs.dropWhile p)

private def numeralSuffix : List Char → List Char × List Char
  | 'n' :: r => (['n'], r)
  | r => ([], r)

private def numeralExponent (cs : List Char) : List Char × List Char :=
  match cs with
  | e :: s :: d :: r =>
    if (e == 'e' || e == 'E') && (s == '+' || s == '-') && d.isDigit then
      let (t, rest) := spanChars isDigitOrSeparator (d :: r)
      (e :: s :: t, rest)
    else if (e == 'e' || e == 'E') && s.isDigit then
      let (t, rest) := spanChars isDigitOrSeparator (s :: d :: r)
      (e :: t, rest)
    else ([], cs)
  | [e, s] => if (e == 'e' || e == 'E') && s.isDigit then ([e, s], []) else ([], cs)
  | _ => ([], cs)

private def numeralFraction : List Char → List Char × List Char
  | '.' :: r => let (t, rest) := spanChars isDigitOrSeparator r; ('.' :: t, rest)
  | r => ([], r)

/-- A numeral at the front of a text: prefixed, or decimal with fraction and exponent, each with
an optional big-integer suffix. -/
def numeralSpan (cs : List Char) : List Char × List Char :=
  let decimal : List Char × List Char :=
    let (whole, r₁) := spanChars isDigitOrSeparator cs
    let (fraction, r₂) := numeralFraction r₁
    let (power, r₃) := numeralExponent r₂
    let (suffix, r₄) := numeralSuffix r₃
    (whole ++ fraction ++ power ++ suffix, r₄)
  match cs with
  | '0' :: x :: r =>
    if ['x', 'X', 'o', 'O', 'b', 'B'].contains x then
      let (digits, r₁) := spanChars isRadixDigit r
      let (suffix, r₂) := numeralSuffix r₁
      ('0' :: x :: (digits ++ suffix), r₂)
    else decimal
  | _ => decimal

/-! ### Marks -/

/-- Operators and brackets, longer ones first. -/
def marks : List (List Char) :=
  [">>>=", "...", "===", "!==", "**=", "<<=", ">>=", ">>>", "&&=", "||=", "??=", "=>", "==", "!=",
   "<=", ">=", "&&", "||", "??", "?.", "++", "--", "+=", "-=", "*=", "/=", "%=", "&=", "|=", "^=",
   "<<", ">>", "**"].map String.toList

/-- The longest mark at the front; a question mark and a dot are apart before a digit. -/
def markSpan (cs : List Char) : List Char × List Char :=
  match cs with
  | '?' :: '.' :: d :: r => if d.isDigit then (['?'], '.' :: d :: r) else (['?', '.'], d :: r)
  | _ => match marks.find? (·.isPrefixOf cs) with
    | some m => (m, cs.drop m.length)
    | none => (cs.take 1, cs.drop 1)

/-! ### Cursors -/

/-- A place in a text: the token that comes next, the text from its first character on, and the
text behind it. -/
structure Cursor where
  token : Token
  start : List Char
  rest : List Char

/-- The shape, the characters and the rest of the token at the front of a text that starts with
one. -/
def tokenSpan (cs : List Char) : Shape × List Char × List Char :=
  match cs with
  | [] => (.finish, [], [])
  | c :: r =>
    if isNameStart c then (.word, spanChars isNamePart cs)
    else if c.isDigit then (.numeral, numeralSpan cs)
    else if c == '"' || c == '\'' then
      let (t, rest) := quotedTail c r
      (.quoted, c :: t, rest)
    else match c, r with
      | '.', d :: _ => if d.isDigit then (.numeral, numeralSpan cs) else (.mark, markSpan cs)
      | '#', d :: _ =>
        if isNameStart d then
          let (t, rest) := spanChars isNamePart r
          (.privateName, c :: t, rest)
        else (.mark, markSpan cs)
      | _, _ => (.mark, markSpan cs)

/-- The cursor at the first token of a text. -/
def Cursor.at (cs : List Char) : Cursor :=
  let (comments, blank, newline, start) := skipGap [] false (.blank []) cs
  let (shape, text, rest) := tokenSpan start
  { token := ⟨comments.reverse, String.ofList blank.reverse, newline, shape, String.ofList text⟩
    start, rest }

/-- One token further. -/
def Cursor.next (c : Cursor) : Cursor := Cursor.at c.rest

/-- The cursor whose next token is only the first character of what comes next. -/
def Cursor.splitFirst (c : Cursor) : Cursor :=
  { c with
    token := { c.token with shape := .mark, text := String.ofList (c.start.take 1) }
    rest := c.start.drop 1 }

end SettingsHarvest.Syntax
