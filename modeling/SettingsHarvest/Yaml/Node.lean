import SettingsHarvest.Yaml.Scalar
import SettingsHarvest.Yaml.Tag

/-! Nodes of YAML documents, and the structure of a text.

A node is a scalar, a sequence or a mapping, with a tag. Block structure goes by columns: the items
of a sequence and the keys of a mapping stand in one column, and what belongs to them stands further
right, except that the items of a sequence under a key may stand in the key's own column. A key that
is not marked as one stands on one line with its colon, and nothing but the first key or item of a
line may open a block. Between brackets columns do not count.

An alias is the node it names, which has to be complete by then. Every reading of a node spends one
unit of its bound; a text of some length never needs more than `bound` grants it. -/
namespace SettingsHarvest.Yaml

inductive Node where
  | scalar (tag : Tag) (text : String)
  | sequence (tag : Tag) (items : List Node)
  | mapping (tag : Tag) (pairs : List (Node × Node))

def Node.tag : Node → Tag
  | scalar tag _ | sequence tag _ | mapping tag _ => tag

/-! ### Readings -/

structure State where
  cursor : Cursor
  anchors : List (String × Node)
  /-- Beginnings of tags, and what they stand for. -/
  handles : List (String × String)

abbrev Reading := StateT State (Except Problem)

namespace Reading

def malformed {α : Type} : Reading α := throw .malformed

def cursor : Reading Cursor := do return (← get).cursor

def moveTo (c : Cursor) : Reading Unit := modify fun s => { s with cursor := c }

/-- Past the next character. -/
def skip : Reading Unit := do moveTo (← cursor).skip

/-- Past the space in front of a token; whether a line ended there. -/
def gap : Reading Bool := do
  let (c, broke) := (← cursor).gap
  moveTo c
  return broke

def require (b : Bool) : Reading Unit := if b then pure () else malformed

/-- Characters of a kind, at least one. -/
def word (p : Char → Bool) : Reading (List Char) := do
  let (taken, c) := (← cursor).span p
  require (!taken.isEmpty)
  moveTo c
  return taken

/-- The text that a scanner finds. -/
def scan (f : Cursor → Except Problem (List Char × Cursor)) : Reading (List Char) := do
  let (text, c) ← f (← cursor)
  moveTo c
  return text

/-! ### Anchors and tags -/

/-- What may be said about a node in front of it. -/
structure Properties where
  anchor : Option String := none
  tag : Option String := none

/-- The properties of two places, none of which is given twice. -/
def Properties.join (p q : Properties) : Reading Properties := do
  require (!(p.anchor.isSome && q.anchor.isSome) && !(p.tag.isSome && q.tag.isSome))
  return ⟨p.anchor.or q.anchor, p.tag.or q.tag⟩

def Properties.isEmpty (p : Properties) : Bool := p.anchor.isNone && p.tag.isNone

/-- The name behind the indicator of an anchor or an alias. -/
def anchorName : Reading String := do
  skip
  let name ← word isNameChar
  let c ← cursor
  require (endsWord c.rest || startsWithAny ['?', ':', ',', ']', '\x7d', '%', '@', '`'] c.rest)
  return String.ofList name

def isTagChar (c : Char) : Bool :=
  c.isAlphanum || "-;/?:@&=+$,_.!~*'()[]%".toList.contains c

/-- The octets that percent signs in a tag stand for. -/
def octets : List Char → Option (List UInt8)
  | '%' :: a :: b :: r => do
    let n ← Numeral.natural? 16 [a, b]
    return n.toUInt8 :: (← octets r)
  | '%' :: _ => none
  | c :: r => do return c.toNat.toUInt8 :: (← octets r)
  | [] => some []

/-- The text of a tag, percent signs resolved. -/
def tagText : Reading String := do
  let cs ← word isTagChar
  match (octets cs).bind fun os => String.fromUTF8? (ByteArray.mk os.toArray) with
  | some text => return text
  | none => malformed

/-- Whether another exclamation mark follows in a word. -/
def hasMark : List Char → Bool
  | [] => false
  | c :: r => if endsStrictly [c] then false else c == '!' || hasMark r

/-- A handle: an exclamation mark alone, or two with a name or nothing between them. -/
def handle : Reading String := do
  let (name, c) := ((← cursor).skip).span isNameChar
  require (c.next == some '!')
  moveTo c.skip
  return "!" ++ String.ofList name ++ "!"

/-- A tag in full, with its handle resolved. -/
def tagName : Reading String := do
  let c ← cursor
  let name ← match c.rest.drop 1 with
    | '<' :: _ => do
      skip; skip
      let text ← tagText
      require ((← cursor).next == some '>')
      skip
      pure text
    | r =>
      if endsWord r then do
        skip
        pure "!"
      else do
        let h ← if hasMark r then handle else do
          skip
          pure "!"
        let text ← tagText
        match (← get).handles.lookup h with
        | some beginning => pure (beginning ++ text)
        | none => malformed
  require (endsStrictly (← cursor).rest)
  return name

/-- Properties on one line, and whether the line ended behind them. -/
def properties : Nat → Properties → Reading (Properties × Bool)
  | 0, p => return (p, false)
  | bound + 1, p => do
    let c ← cursor
    if c.next == some '&' || c.next == some '!' then
      let found : Properties ← if c.next == some '&' then do pure ⟨some (← anchorName), none⟩
        else do pure ⟨none, some (← tagName)⟩
      let p ← p.join found
      if ← gap then return (p, true)
      properties bound p
    else return (p, false)

/-! ### Content -/

inductive Content where
  | scalar (plain : Bool) (text : List Char)
  | sequence (items : List Node)
  | mapping (pairs : List (Node × Node))

/-- A node with its tag; an exclamation mark alone leaves the tag to the form. -/
def tagged (tag : Option String) (content : Content) : Node :=
  let own := (tag.filter (· != "!")).map Tag.ofName
  match content with
  | .scalar plain text =>
    .scalar (own.getD (if plain || tag.isSome then .ofPlain text else .text)) (String.ofList text)
  | .sequence items => .sequence (own.getD .list) items
  | .mapping pairs => .mapping (own.getD .mapping) pairs

/-- A complete node; its anchor is new. -/
def complete (p : Properties) (content : Content) : Reading Node := do
  let node := tagged p.tag content
  match p.anchor with
  | none => return node
  | some name =>
    let s ← get
    require (s.anchors.lookup name).isNone
    set { s with anchors := (name, node) :: s.anchors }
    return node

def empty (p : Properties) : Reading Node := complete p (.scalar true [])

/-- What the middle of a node can be without a block: an alias, or content. -/
inductive Atom where
  | known (node : Node)
  | content (c : Content)

def aliased : Reading Atom := do
  let name ← anchorName
  match (← get).anchors.lookup name with
  | some node => return .known node
  | none => malformed

/-- A node of an atom, which if it is an alias has no properties; or an empty one. -/
def ofAtom (p : Properties) : Option Atom → Reading Node
  | some (.known node) => do
    require p.isEmpty
    return node
  | some (.content c) => complete p c
  | none => empty p

/-- A scalar on its own; `none` where none starts. -/
def scalar? (flow : Bool) (floor : Nat) : Reading (Option Atom) := do
  let c ← cursor
  match c.next with
  | some '*' => return some (← aliased)
  | some '\'' => return some (.content (.scalar false (← scan (quotedScalar '\''))))
  | some '"' => return some (.content (.scalar false (← scan (quotedScalar '"'))))
  | _ =>
    if startsPlain flow c.rest then
      return some (.content (.scalar true (← scan fun c => .ok (plainScalar flow floor c))))
    else return none

/-- Whether the colon of a key stands here that began at `start`: on the same line, and not too far
off. -/
def colonOf (start : Cursor) (flow : Bool) : Reading Bool := do
  let c ← cursor
  return c.next == some ':' && (flow || c.atIndicator ':') && c.line == start.line
    && c.index - start.index ≤ 1024

/-! ### Structure -/

mutual
/-- An item or a value between brackets; nothing is empty unless it has properties. -/
def flowNode : Nat → Reading Node
  | 0 => malformed
  | bound + 1 => do
    require (!(← cursor).atMarker)
    let p ← flowProperties 3 {}
    match ← atom bound true 0 with
    | none =>
      require (!p.isEmpty)
      empty p
    | some a => ofAtom p (some a)

/-- Properties between brackets, on any number of lines. -/
def flowProperties : Nat → Properties → Reading Properties
  | 0, p => return p
  | bound + 1, p => do
    let (q, broke) ← properties 3 p
    if broke then flowProperties bound q else return q

/-- An alias, a scalar, or a structure in brackets. -/
def atom : Nat → Bool → Nat → Reading (Option Atom)
  | 0, _, _ => malformed
  | bound + 1, flow, floor => do
    match (← cursor).next with
    | some '[' =>
      skip
      return some (.content (.sequence (← flowItems bound)))
    | some '\x7b' =>
      skip
      return some (.content (.mapping (← flowPairs bound)))
    | _ => scalar? flow floor

/-- The value of a key between brackets: behind its colon, or empty. -/
def flowValue : Nat → Char → Reading Node
  | 0, _ => malformed
  | bound + 1, closing => do
    skip
    let _ ← gap
    let c ← cursor
    if c.next == some ',' || c.next == some closing then empty {} else flowNode bound

/-- A key between brackets that is marked as one, and its value. -/
def flowMarked : Nat → Char → Reading (Node × Node)
  | 0, _ => malformed
  | bound + 1, closing => do
    skip
    let _ ← gap
    let c ← cursor
    let key ← if [some ':', some ',', some closing].contains c.next then empty {}
      else flowNode bound
    let _ ← gap
    let value ← if (← cursor).next == some ':' then flowValue bound closing else empty {}
    return (key, value)

/-- Items up to the closing bracket; a key with its value is an item of its own. -/
def flowItems : Nat → Reading (List Node)
  | 0 => malformed
  | bound + 1 => do
    let _ ← gap
    let start ← cursor
    if start.next == some ']' then
      skip
      return []
    let item ← if start.next == some '?' then do
        let pair ← flowMarked bound ']'
        pure (Node.mapping .mapping [pair])
      else do
        let node ← flowNode bound
        let _ ← gap
        if ← colonOf start true then do
          let value ← flowValue bound ']'
          pure (Node.mapping .mapping [(node, value)])
        else pure node
    let _ ← gap
    match (← cursor).next with
    | some ',' =>
      skip
      return item :: (← flowItems bound)
    | some ']' =>
      skip
      return [item]
    | _ => malformed

/-- Keys and values up to the closing brace; a key alone has an empty value. -/
def flowPairs : Nat → Reading (List (Node × Node))
  | 0 => malformed
  | bound + 1 => do
    let _ ← gap
    let start ← cursor
    if start.next == some '\x7d' then
      skip
      return []
    let pair ← if start.next == some '?' then flowMarked bound '\x7d'
      else do
        let key ← flowNode bound
        let _ ← gap
        let value ← if ← colonOf start true then flowValue bound '\x7d' else empty {}
        pure (key, value)
    let _ ← gap
    match (← cursor).next with
    | some ',' =>
      skip
      return pair :: (← flowPairs bound)
    | some '\x7d' =>
      skip
      return [pair]
    | _ => malformed
end

mutual
/-- A node outside brackets, with properties read before. It stands at the column `floor` or further
right, or is empty; `compact` says that the items of a sequence may stand one column before it, and
`opens` that a key or an item may stand here. -/
def blockNode : Nat → Nat → Bool → Bool → Properties → Reading Node
  | 0, _, _, _, _ => malformed
  | bound + 1, floor, compact, opens, outer => do
    let c ← cursor
    let level := c.column + 1 == floor
    if c.atEnd || c.column + 1 < floor then empty outer
    else if c.next == some '|' || c.next == some '>' then
      complete outer (.scalar false (← scan (blockScalar floor)))
    else if c.atIndicator '-' && (compact || !level) then
      require opens
      complete outer (.sequence (← items bound c.column level))
    else if level then empty outer
    else if c.atIndicator '?' then
      require opens
      complete outer (.mapping (← pairs bound c.column))
    else
      let (inner, broke) ← properties 3 {}
      if broke then blockNode bound floor compact true (← outer.join inner)
      else
        let found ← atom bound false floor
        let d ← cursor
        if found.isNone && (d.next == some '|' || d.next == some '>') then
          complete (← outer.join inner) (.scalar false (← scan (blockScalar floor)))
        else
          require (found.isSome || !inner.isEmpty || !outer.isEmpty)
          let _ ← gap
          if opens && (← colonOf c false) then
            let key ← ofAtom inner found
            let value ← valueOf bound c.column false
            complete outer (.mapping ((key, value) :: (← pairs bound c.column)))
          else ofAtom (← outer.join inner) found

/-- What belongs to the indicator that stands here, in a structure in a column. -/
def valueOf : Nat → Nat → Bool → Reading Node
  | 0, _, _ => malformed
  | bound + 1, column, opens => do
    skip
    let broke ← gap
    blockNode bound (column + 1) true (opens || broke) {}

/-- The items of a sequence in a column; `level` if it shares the column with the keys around it. -/
def items : Nat → Nat → Bool → Reading (List Node)
  | 0, _, _ => malformed
  | bound + 1, column, level => do
    let _ ← gap
    let c ← cursor
    if c.atEnd || c.column < column then return []
    else if c.column == column && c.atIndicator '-' then
      skip
      let _ ← gap
      let item ← blockNode bound (column + 1) false true {}
      return item :: (← items bound column level)
    else
      require (level && c.column == column)
      return []

/-- The keys of a mapping in a column, with their values. -/
def pairs : Nat → Nat → Reading (List (Node × Node))
  | 0, _ => malformed
  | bound + 1, column => do
    let _ ← gap
    let c ← cursor
    if c.atEnd || c.column < column then return []
    else
      require (c.column == column)
      if c.atIndicator '?' then
        let key ← valueOf bound column true
        let _ ← gap
        let d ← cursor
        let value ← if !d.atEnd && d.column == column && d.atIndicator ':' then
            valueOf bound column true
          else empty {}
        return (key, value) :: (← pairs bound column)
      else
        let (p, broke) ← properties 3 {}
        require (!broke && !c.atIndicator '-' && !c.atIndicator ':')
        let found ← atom bound false (column + 1)
        let _ ← gap
        require (← colonOf c false)
        let key ← ofAtom p found
        let value ← valueOf bound column false
        return (key, value) :: (← pairs bound column)
end

/-! ### Documents -/

/-- What handles stand for from the start. -/
def commonHandles : List (String × String) := [("!", "!"), ("!!", Tag.common)]

/-- A directive in front of a document: a version of the language, the meaning of a handle, or
something to leave alone. `versioned` says that there was a version before. -/
def directive (versioned : Bool) (own : List (String × String)) :
    Reading (Bool × List (String × String)) := do
  skip
  let name ← word isNameChar
  require (endsStrictly (← cursor).rest)
  if name == "YAML".toList then
    require (!versioned)
    let _ ← word (· == ' ')
    let major ← word Char.isDigit
    require ((← cursor).next == some '.' && Numeral.natural? 10 major == some 1)
    skip
    let _ ← word Char.isDigit
    require (endsStrictly (← cursor).rest)
    return (true, own)
  else if name == "TAG".toList then
    let _ ← word (· == ' ')
    let c ← cursor
    require (c.next == some '!')
    let h ← if c.skip.next == some ' ' then do
        skip
        pure "!"
      else handle
    let _ ← word (· == ' ')
    let beginning ← tagText
    require (endsStrictly (← cursor).rest && (own.lookup h).isNone)
    return (versioned, (h, beginning) :: own)
  else
    moveTo ((← cursor).span (!isBreak ·)).2
    return (versioned, own)

/-- Directives, each on a line of its own; whether there were any, and the handles. -/
def directives : Nat → Bool → Bool → List (String × String) →
    Reading (Bool × List (String × String))
  | 0, _, _, _ => malformed
  | bound + 1, any, versioned, own => do
    let _ ← gap
    let c ← cursor
    if c.column == 0 && c.next == some '%' then
      let (versioned, own) ← directive versioned own
      let broke ← gap
      require (broke || (← cursor).rest.isEmpty)
      directives bound true versioned own
    else return (any, own)

/-- The markers of an end behind a document, and then nothing. -/
def finish : Nat → Reading Unit
  | 0 => malformed
  | bound + 1 => do
    let _ ← gap
    let c ← cursor
    if c.rest.isEmpty then return
    require (c.atMarker && c.next == some '.')
    moveTo (c.past (c.rest.take 3))
    finish bound

/-- The one document of a text; nothing if there is none. -/
def document (bound : Nat) : Reading (Option Node) := do
  let (any, own) ← directives bound false false []
  modify fun s => { s with handles := own ++ commonHandles }
  let c ← cursor
  if c.rest.isEmpty then
    require (!any)
    return none
  let marked := c.atMarker && c.next == some '-'
  require (marked || (!any && !c.atMarker))
  if marked then moveTo (c.past (c.rest.take 3))
  let broke ← gap
  let node ← blockNode bound 0 false (!marked || broke) {}
  finish bound
  return some node

end Reading

/-- The number of readings that a text is granted. -/
def bound (length : Nat) : Nat := 4 * length + 16

/-- The one node in a text, if it has one. -/
def read (text : List Char) : Except Problem (Option Node) :=
  if !text.all isAllowed then .error .malformed
  else (Reading.document (bound text.length)).run' ⟨.start text, [], []⟩

end SettingsHarvest.Yaml
