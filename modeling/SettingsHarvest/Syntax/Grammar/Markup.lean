import SettingsHarvest.Syntax.Grammar.Functions

/-! Markup elements in expressions.

Between tags the text is raw, so white space there belongs to it and must not be skipped. An element
is therefore read with the cursor left on its last bracket: a parent element goes on with the raw
text behind it, an expression with the next token. -/
namespace SettingsHarvest.Syntax.Grammar
open Reader

variable (g : Grammar)

private def isMarkupNamePart (c : Char) : Bool := isNamePart c || c == '-'

/-- A name of an element or attribute; hyphens are part of it. -/
def markupWord (k : Kind) : Reader Piece := do
  let c ← cursor
  require (c.token.shape == .word)
  let text := c.start.takeWhile isMarkupNamePart
  set (Cursor.at (c.start.dropWhile isMarkupNamePart))
  return ⟨c.token.comments, .leaf k none c.token.blank (String.ofList text)⟩

/-- `a`, `a.b` or `a:b`. -/
def markupName (k : Kind) : Reader Piece := do
  let first ← markupWord k
  if (← peek).isMark ":" then
    let colon ← mark ":"
    return Piece.join .jsxNamespaceName [first, colon, ← markupWord k]
  let rec members (base : Piece) : Nat → Reader Piece
    | 0 => return base
    | n + 1 => do
      if !(← peek).isMark "." then return base
      let dot ← mark "."
      let p ← markupWord .propertyIdentifier
      members (Piece.join .memberExpression [base.as .object, dot, p.as .property]) n
  members first g.bound

/-- An expression in braces, with the cursor left on the closing brace. -/
def markupBraces : Reader Piece := do
  let opening ← mark "\x7b"
  let inner ← (do
    let t ← peek
    if t.isMark "\x7d" then return []
    else if t.isMark "..." then
      let dots ← mark "..."
      return [Piece.join .spreadElement [dots, ← g.expression]]
    else return [← g.read (.sequence true)])
  let t ← peek
  require (t.isMark "\x7d")
  return Piece.join .jsxExpression (opening :: inner ++ [t.mark])

/-- A quoted value of an attribute: no escapes, and it may span lines. -/
def markupQuoted : Reader Piece := do
  let c ← cursor
  require (c.token.shape == .quoted)
  match c.start with
  | q :: r =>
    let body := r.takeWhile (· != q)
    set (Cursor.at (r.drop (body.length + 1)))
    return ⟨c.token.comments,
      .leaf .string none c.token.blank (String.ofList (q :: body ++ [q]))⟩
  | [] => failure

def markupAttribute : Reader Piece := do
  if (← peek).isMark "\x7b" then
    let braces ← markupBraces g
    let _ ← take
    return braces
  let n ← markupName g .propertyIdentifier
  if (← peek).isMark "=" then
    let sign ← mark "="
    let t ← peek
    let value ← (
      if t.isMark "\x7b" then do
        let braces ← markupBraces g
        let _ ← take
        return braces
      else if t.isMark "<" then do
        let inner ← g.read .markup
        let _ ← take
        return inner
      else markupQuoted)
    return Piece.join .jsxAttribute [n, sign, value]
  return Piece.join .jsxAttribute [n]

/-- Makes the next token a single character, and stays on it. -/
def onFirstChar : Reader Unit := do
  set (← cursor).splitFirst

/-- The content between two tags, up to the opening bracket of the closing tag. -/
def markupContent : Nat → List Char → Reader (List Piece)
  | 0, _ => failure
  | n + 1, cs => do
    let raw := cs.takeWhile fun c => c != '<' && c != '\x7b'
    let text : List Piece :=
      if raw.isEmpty then [] else [⟨[], .leaf .jsxText none "" (String.ofList raw)⟩]
    match cs.drop raw.length with
    | '<' :: '/' :: r =>
      set (Cursor.at ('<' :: '/' :: r)).splitFirst
      return text
    | '<' :: r =>
      set (Cursor.at ('<' :: r)).splitFirst
      let inner ← g.read .markup
      return text ++ [inner] ++ (← markupContent n (← cursor).rest)
    | '\x7b' :: r =>
      set (Cursor.at ('\x7b' :: r))
      let inner ← markupBraces g
      return text ++ [inner] ++ (← markupContent n (← cursor).rest)
    | _ => failure

/-- An element or a fragment, with the cursor left on its last bracket. -/
def markupRule : Reader Piece := do
  onFirstChar
  let opening ← mark "<"
  let tag ← (do
    if (← peek).shape == .word then return [(← markupName g .identifier).as .name] else return [])
  let generics ← typeArguments? g
  let attributes ← itemsUntil (fun t => t.isMark "/" || t.text.toList.head? == some '>') (do
    return [(← markupAttribute g).as .attribute]) g.bound
  if (← peek).isMark "/" then
    let slash ← mark "/"
    onFirstChar
    let t ← peek
    require (t.isMark ">")
    return Piece.join .jsxSelfClosingElement (opening :: tag ++ generics ++ attributes
      ++ [slash, t.mark])
  onFirstChar
  let c ← cursor
  require (c.token.isMark ">")
  let head := Piece.join .jsxOpeningElement (opening :: tag ++ generics ++ attributes
    ++ [c.token.mark])
  let content ← markupContent g g.bound c.rest
  let first ← mark "<"
  let slash ← mark "/"
  let name ← (do
    if (← peek).shape == .word then return [(← markupName g .identifier).as .name] else return [])
  onFirstChar
  let t ← peek
  require (t.isMark ">")
  let tail := Piece.join .jsxClosingElement (first :: slash :: name ++ [t.mark])
  return Piece.join .jsxElement (head.as .openTag :: content ++ [tail.as .closeTag])

end SettingsHarvest.Syntax.Grammar
