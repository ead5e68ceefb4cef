import SettingsHarvest.Fault
import SettingsHarvest.Text.Layout

/-! Text templates.

A template holds fields in braces; a doubled brace stands for one brace. A field names a text, may
pick a character of it, may ask for it as messages show it, and may say how it is laid out; a layout
is a template itself, one level deep. A template is read into `Piece`s first, the last of which may be
a flaw, so that filling goes from left to right and stops at the first thing that cannot be filled. -/
namespace SettingsHarvest.Text

structure Field where
  /-- The name, and how to get on from the text it names. -/
  name : List Char
  /-- How the text is shown. -/
  conversion : Option Char
  layout : List Char

inductive Piece where
  | character (c : Char)
  | field (f : Field)
  | flaw (f : TemplateFlaw)

/-! ### Reading -/

/-- The name of a field, the character that ends it, and what is behind. Between brackets nothing ends
a name. -/
def readName (bracketed : Bool) : List Char → Except TemplateFlaw (List Char × Char × List Char)
  | [] => .error .unclosedField
  | c :: rest =>
    if bracketed then continued c (readName (c != ']') rest)
    else if c == '\x7b' then .error .braceInField
    else if c == '\x7d' || c == ':' || c == '!' then .ok ([], c, rest)
    else continued c (readName (c == '[') rest)
where
  continued (c : Char) (found : Except TemplateFlaw (List Char × Char × List Char)) :
      Except TemplateFlaw (List Char × Char × List Char) :=
    found.map fun (name, ended, rest) => (c :: name, ended, rest)

/-- A layout up to its closing brace; braces inside it come in pairs. -/
def readLayout (opened : Nat) : List Char → Except TemplateFlaw (List Char × List Char)
  | [] => .error .unclosedLayout
  | c :: rest =>
    if c == '\x7d' then match opened with
      | 0 => .ok ([], rest)
      | n + 1 => (readLayout n rest).map fun (layout, rest) => (c :: layout, rest)
    else
      (readLayout (if c == '\x7b' then opened + 1 else opened) rest).map
        fun (layout, rest) => (c :: layout, rest)

/-- A field behind its opening brace, and what is behind it. -/
def readField (cs : List Char) : Except TemplateFlaw (Field × List Char) := do
  let (name, ended, rest) ← readName false cs
  if ended == '\x7d' then return (⟨name, none, []⟩, rest)
  if ended == ':' then
    let (layout, rest) ← readLayout 0 rest
    return (⟨name, none, layout⟩, rest)
  match rest with
  | [] => throw .noConversion
  | c :: '\x7d' :: rest => return (⟨name, some c, []⟩, rest)
  | c :: ':' :: rest =>
    let (layout, rest) ← readLayout 0 rest
    return (⟨name, some c, layout⟩, rest)
  | [_] => throw .unclosedLayout
  | _ => throw .behindConversion

/-- The pieces of a template, with a bound on their number. -/
def piecesWithin : Nat → List Char → List Piece
  | 0, _ | _, [] => []
  | n + 1, c :: rest =>
    if c != '\x7b' && c != '\x7d' then .character c :: piecesWithin n rest
    else if rest.head? == some c then .character c :: piecesWithin n (rest.drop 1)
    else if c == '\x7d' || rest.isEmpty then [.flaw (.loneBrace c)]
    else match readField rest with
      | .ok (f, rest) => .field f :: piecesWithin n rest
      | .error f => [.flaw f]

def pieces (template : List Char) : List Piece := piecesWithin template.length template

/-! ### Fields -/

/-- Where a text is followed on to. -/
def continuesName (c : Char) : Bool := c == '.' || c == '['

/-- The text that is reached from another one, with a bound on the steps. A character can be picked by
its position; there is nothing else to reach. -/
def follow (text : List Char) : Nat → List Char → Except Fault (List Char)
  | 0, _ | _, [] => .ok text
  | _ + 1, '.' :: rest =>
    let name := rest.takeWhile (!continuesName ·)
    if name.isEmpty then .error (.template .emptyStep)
    else .error (.noAttribute "str" (String.ofList name))
  | n + 1, '[' :: rest =>
    let key := rest.takeWhile (· != ']')
    match rest.dropWhile (· != ']') with
    | [] => .error (.template .unclosedBracket)
    | _ :: behind =>
      if !key.all Layout.isDecimal then .error .keyIntoText
      else if key.isEmpty then .error (.template .emptyStep)
      else if Layout.largestCount < Layout.digitsValue key then
        .error (.template (.layout .tooManyDigits))
      else match text[Layout.digitsValue key]? with
        | some c => follow [c] n behind
        | none => .error .outsideText
  | _, _ => .error (.template .behindBracket)

/-- The text that a name in a template stands for. -/
def named (fields : List (String × String)) (name : List Char) : Except Fault (List Char) :=
  let first := name.takeWhile (!continuesName ·)
  let steps := name.dropWhile (!continuesName ·)
  if first.all Layout.isDecimal then
    if Layout.largestCount < Layout.digitsValue first then
      .error (.template (.layout .tooManyDigits))
    else .error (.positionalField (Layout.digitsValue first))
  else match fields.lookup (String.ofList first) with
    | some text => follow text.toList (steps.length + 1) steps
    | none => .error (.missingField (String.ofList first))

/-- A text as a conversion asks for it. -/
def converted (text : List Char) : Option Char → Except Fault (List Char)
  | none | some 's' => .ok text
  | some 'r' => .ok (quoted (String.ofList text)).toList
  | some 'a' => .ok (asciiQuoted (String.ofList text)).toList
  | some c => .error (.template (.unknownConversion c))

/-! ### Filling -/

/-- Pieces with the texts of their fields put in, given how layouts are filled. -/
def fillPieces (fields : List (String × String)) (layout : List Char → Except Fault (List Char)) :
    List Piece → Except Fault (List Char)
  | [] => .ok []
  | .character c :: rest => do return c :: (← fillPieces fields layout rest)
  | .flaw f :: _ => .error (.template f)
  | .field f :: rest => do
    let text ← converted (← named fields f.name) f.conversion
    let set ← (laidOut (← layout f.layout) text).mapError fun flaw => .template (.layout flaw)
    return set ++ (← fillPieces fields layout rest)

/-- Fills a template whose layouts nest so many levels deep. -/
def fillWithin (fields : List (String × String)) : Nat → List Char → Except Fault (List Char)
  | 0, _ => .error (.template .tooDeep)
  | depth + 1, template =>
    fillPieces fields (fun layout =>
      if layout.contains '\x7b' then fillWithin fields depth layout else .ok layout)
      (pieces template)

def fill (template : String) (fields : List (String × String)) : Except Fault String :=
  (fillWithin fields 2 template.toList).map String.ofList

end SettingsHarvest.Text
