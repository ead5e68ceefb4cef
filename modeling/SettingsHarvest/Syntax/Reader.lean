import SettingsHarvest.Syntax.Token

/-! Reading tokens into pieces of a tree.

A `Piece` is a node together with the comments in front of its first token. Where a node has other
tokens before it in its parent, those comments become parts of the parent; at the very front they
move up with it, so a comment ends up in the innermost node that has tokens on both sides of it.

The grammar is given one level deep: every rule may ask for the phrases inside it through
`Grammar.read`, and `SettingsHarvest.Syntax.Program` ties the knot. -/
namespace SettingsHarvest.Syntax

structure Piece where
  comments : List Node
  node : Node

namespace Piece

/-- A node made of pieces. -/
def join (k : Kind) : List Piece → Piece
  | [] => ⟨[], .tree k none []⟩
  | p :: rest => ⟨p.comments, .tree k none (p.node :: rest.flatMap fun q => q.comments ++ [q.node])⟩

/-- The piece in a role. -/
def as (p : Piece) (r : Role) : Piece := ⟨p.comments, p.node.withRole r⟩

def hasKind (k : Kind) (p : Piece) : Bool := p.node.hasKind k

end Piece

def Token.mark (t : Token) : Piece := ⟨t.comments, .token none t.blank t.text⟩

def Token.leaf (t : Token) (k : Kind) : Piece := ⟨t.comments, .leaf k none t.blank t.text⟩

def Token.isMark (t : Token) (s : String) : Bool := t.shape == .mark && t.text == s

def Token.isWord (t : Token) (s : String) : Bool := t.shape == .word && t.text == s

def Token.isAnyWord (t : Token) (ws : List String) : Bool := t.shape == .word && ws.contains t.text

def Token.isAnyMark (t : Token) (ms : List String) : Bool := t.shape == .mark && ms.contains t.text

/-! ### Readers -/

abbrev Reader := StateT Cursor Option

namespace Reader

def cursor : Reader Cursor := get

/-- The token that comes next. -/
def peek : Reader Token := do return (← get).token

/-- The token after the next one. -/
def peekSecond : Reader Token := do return (← get).next.token

/-- Takes the next token. -/
def take : Reader Token := do
  let c ← get
  set c.next
  return c.token

def require (b : Bool) : Reader Unit := if b then pure () else failure

/-- A given mark. -/
def mark (s : String) : Reader Piece := do
  let c ← get
  require (c.token.isMark s)
  set c.next
  return c.token.mark

/-- A given word, taken as a keyword. -/
def keyword (s : String) : Reader Piece := do
  let c ← get
  require (c.token.isWord s)
  set c.next
  return c.token.mark

/-- The piece a reader finds, or nothing when the next token is not the given mark. -/
def ifMark (s : String) (r : Reader (List Piece)) : Reader (List Piece) := do
  if (← peek).isMark s then r else return []

def ifWord (s : String) (r : Reader (List Piece)) : Reader (List Piece) := do
  if (← peek).isWord s then r else return []

/-- What a reader finds, or nothing where it does not apply. -/
def orNothing (r : Reader (List Piece)) : Reader (List Piece) := r <|> pure []

def single (r : Reader Piece) : Reader (List Piece) := do return [← r]

/-- A mark that is there or not. -/
def mark? (s : String) : Reader (List Piece) := ifMark s (single (mark s))

def keyword? (s : String) : Reader (List Piece) := ifWord s (single (keyword s))

/-- The closing angle bracket of a list of types, which may be the first half of a longer mark. -/
def closeAngle : Reader Piece := do
  let c ← get
  require (c.token.shape == .mark && c.token.text.toList.head? == some '>')
  let d := c.splitFirst
  set d.next
  return d.token.mark

/-- Items up to a token that ends the list; the bound is never met on a text it was taken from. -/
def itemsUntil (stop : Token → Bool) (item : Reader (List Piece)) : Nat → Reader (List Piece)
  | 0 => failure
  | n + 1 => do
    if stop (← peek) then return []
    let first ← item
    return first ++ (← itemsUntil stop item n)

/-- A list in brackets: items with commas between them, holes and a last comma allowed. -/
def commaList (bound : Nat) (opening closing : String) (item : Reader (List Piece)) :
    Reader (List Piece) := do
  let first ← mark opening
  let items ← itemsUntil (·.isMark closing) (do
    if (← peek).isMark "," then single (mark ",")
    else
      let found ← item
      let next ← peek
      require (next.isMark "," || next.isMark closing)
      return found) bound
  let last ← mark closing
  return first :: items ++ [last]

/-- A statement ends at a semicolon, before a closing brace, at the end of the text, or at a line
break. -/
def statementEnd : Reader (List Piece) := do
  let t ← peek
  if t.isMark ";" then single (mark ";")
  else
    require (t.newline || t.isMark "\x7d" || t.shape == .finish)
    return []

end Reader

/-! ### The grammar's levels -/

/-- Phrases that rules ask for. -/
inductive Goal where
  /-- An expression or several with commas between; `in` may be kept out. -/
  | sequence (allowIn : Bool)
  /-- One expression. An arrow function with a result type is kept out between `?` and `:`. -/
  | expression (allowIn typedArrow : Bool)
  /-- An operand of operators at least as tight as a level. -/
  | operand (level : Nat) (allowIn : Bool)
  | unary
  | pattern
  | parameters
  | type
  | typeArguments
  | typeParameters
  | block
  | statement
  | markup

structure Grammar where
  /-- Angle brackets open markup elements, not type assertions. -/
  markup : Bool
  /-- No list is longer than this. -/
  bound : Nat
  read : Goal → Reader Piece

def Grammar.expression (g : Grammar) : Reader Piece := g.read (.expression true true)

def Grammar.type (g : Grammar) : Reader Piece := g.read .type

/-- Words that cannot name anything. -/
def reservedWords : List String :=
  ["break", "case", "catch", "class", "const", "continue", "debugger", "default", "delete", "do",
   "else", "enum", "export", "extends", "false", "finally", "for", "function", "if", "import", "in",
   "instanceof", "new", "null", "return", "super", "switch", "this", "throw", "true", "try",
   "typeof", "undefined", "var", "void", "while", "with"]

/-- A word used as a name, of a given kind. -/
def Reader.name (k : Kind) : Reader Piece := do
  let t ← Reader.peek
  Reader.require (t.shape == .word && !reservedWords.contains t.text)
  return (← Reader.take).leaf k

/-- Any word at all, of a given kind. -/
def Reader.anyWord (k : Kind) : Reader Piece := do
  Reader.require ((← Reader.peek).shape == .word)
  return (← Reader.take).leaf k

/-- A quoted text. -/
def Reader.quoted : Reader Piece := do
  Reader.require ((← Reader.peek).shape == .quoted)
  return (← Reader.take).leaf .string

end SettingsHarvest.Syntax
