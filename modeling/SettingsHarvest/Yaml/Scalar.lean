import SettingsHarvest.Yaml.Cursor
import SettingsHarvest.Text.Escape

/-! The text of YAML scalars.

A line break inside a scalar is folded: one alone becomes a space, and of several the first is
dropped. Plain scalars end at a colon or a comment that stands apart, and on another line unless it
is indented; quoted ones end at their quote. Block scalars have lines of their own: a literal one
keeps its line breaks, a folded one folds them between lines that do not start with white space, and
what becomes of the breaks at its end is for its header to say. -/
namespace SettingsHarvest.Yaml

/-- What the line breaks between two lines leave. -/
def folded (first : Char) (others : List Char) : List Char :=
  if breakText first != '\n' then breakText first :: others
  else if others.isEmpty then [' '] else others

/-! ### Plain scalars -/

def startsWithAny (cs : List Char) : List Char → Bool
  | c :: _ => cs.contains c
  | [] => false

def flowIndicators : List Char := [',', '[', ']', '\x7b', '\x7d']

/-- Whether a plain scalar can start here. -/
def startsPlain (flow : Bool) : List Char → Bool
  | [] => false
  | c :: r =>
    !(endsWord [c] || ['-', '?', ':', '#', '&', '*', '!', '|', '>', '\'', '"', '%', '@', '`'].contains c
        || flowIndicators.contains c)
      || (!endsWord r && (c == '-' || (!flow && (c == '?' || c == ':'))))

/-- Whether a run of characters of a plain scalar ends here. -/
def endsPlain (flow : Bool) : List Char → Bool
  | [] => true
  | c :: r =>
    endsWord [c] || (c == ':' && (endsWord r || (flow && startsWithAny flowIndicators r)))
      || (flow && (c == '?' || flowIndicators.contains c))

def plainRun (flow : Bool) : List Char → List Char
  | [] => []
  | c :: r => if endsPlain flow (c :: r) then [] else c :: plainRun flow r

/-- The space between two runs, as the scalar keeps it; none where the scalar ends. -/
def plainSpace (c : Cursor) : List Char × Cursor :=
  let (blanks, c) := c.span (· == ' ')
  match c.rest with
  | b :: _ =>
    if !isBreak b then (blanks, c)
    else if c.newLine.atMarker then ([], c.newLine)
    else
      let (breaks, d) := c.newLine.blankLines (· == ' ')
      if d.atMarker then ([], d) else (folded b breaks, d)
  | [] => (blanks, c)

/-- A plain scalar from here on: `seen` (backwards) and `space` are behind. Lines after the first
start at the column `floor` or further right. -/
def plainFrom (flow : Bool) (floor : Nat) : Nat → List Char → List Char → Cursor →
    List Char × Cursor
  | 0, seen, _, c => (seen.reverse, c)
  | bound + 1, seen, space, c =>
    let run := plainRun flow c.rest
    if run.isEmpty then (seen.reverse, c)
    else
      let seen := run.reverse ++ (space.reverse ++ seen)
      let (space, c) := plainSpace (c.past run)
      if space.isEmpty || c.next == some '#' || (!flow && c.column < floor) then (seen.reverse, c)
      else plainFrom flow floor bound seen space c

def plainScalar (flow : Bool) (floor : Nat) (c : Cursor) : List Char × Cursor :=
  plainFrom flow floor c.rest.length [] [] c

/-! ### Quoted scalars -/

/-- The character a letter stands for behind a backslash. -/
def escapedChar? : Char → Option Char
  | '0' => some '\x00' | 'a' => some '\x07' | 'b' => some '\x08' | 't' => some '\t'
  | '\t' => some '\t' | 'n' => some '\n' | 'v' => some '\x0b' | 'f' => some '\x0c'
  | 'r' => some '\r' | 'e' => some '\x1b' | ' ' => some ' ' | '"' => some '"'
  | '\\' => some '\\' | '/' => some '/' | 'N' => some '\u0085' | '_' => some '\u00a0'
  | 'L' => some '\u2028' | 'P' => some '\u2029'
  | _ => none

/-- How many hexadecimal digits follow a letter behind a backslash. -/
def escapeWidth? : Char → Option Nat
  | 'x' => some 2 | 'u' => some 4 | 'U' => some 8
  | _ => none

/-- What an escape stands for, behind its backslash; a line break joins lines. -/
def escaped (c : Cursor) : Except Problem (List Char × Cursor) :=
  match c.rest with
  | [] => .error .malformed
  | e :: r =>
    if let some x := escapedChar? e then .ok ([x], c.skip)
    else if let some width := escapeWidth? e then
      let digits := r.take width
      match (if digits.length == width then Numeral.natural? 16 digits else none) with
      | none => .error .malformed
      | some n => match Text.codePoint n with
        | .ok points => .ok (Text.characters points, c.past (e :: digits))
        | .error f => .error (.fault f)
    else if isBreak e then
      let (breaks, d) := c.newLine.blankLines isTabOrSpace
      if d.atMarker then .error .malformed else .ok (breaks, d)
    else .error .malformed

/-- A quoted scalar from here on; a doubled single quote stands for one, and backslashes escape
between double quotes only. -/
def quotedFrom (quote : Char) : Nat → List Char → Cursor → Except Problem (List Char × Cursor)
  | 0, _, _ => .error .malformed
  | bound + 1, seen, c =>
    match c.rest with
    | [] => .error .malformed
    | x :: r =>
      if x == quote then
        if quote == '\'' && r.head? == some '\'' then
          quotedFrom quote bound ('\'' :: seen) (c.past [x, x])
        else .ok (seen.reverse, c.skip)
      else if x == '\\' && quote == '"' then
        match escaped c.skip with
        | .ok (text, d) => quotedFrom quote bound (text.reverse ++ seen) d
        | .error e => .error e
      else if isTabOrSpace x || isBreak x then
        let (blanks, c) := c.span isTabOrSpace
        match c.rest with
        | [] => .error .malformed
        | b :: _ =>
          if isBreak b then
            let (breaks, d) := c.newLine.blankLines isTabOrSpace
            if d.atMarker then .error .malformed
            else quotedFrom quote bound ((folded b breaks).reverse ++ seen) d
          else quotedFrom quote bound (blanks.reverse ++ seen) c
      else quotedFrom quote bound (x :: seen) c.skip

/-- The quoted scalar that starts here. -/
def quotedScalar (quote : Char) (c : Cursor) : Except Problem (List Char × Cursor) :=
  quotedFrom quote c.rest.length [] c.skip

/-! ### Block scalars -/

/-- What becomes of the line breaks behind the last line. -/
inductive Ending where
  | strip | clip | keep
  deriving DecidableEq

structure Header where
  ending : Ending
  /-- By how much the lines are indented, if the header says so. -/
  indent : Option Nat

def ending? : List Char → Option (Ending × List Char)
  | '+' :: r => some (.keep, r)
  | '-' :: r => some (.strip, r)
  | _ => none

def increment? : List Char → Option (Nat × List Char)
  | d :: r => if d.isDigit then some (d.toNat - 0x30, r) else none
  | [] => none

/-- The two parts of a header, in either order, each of which may be missing. -/
def header (cs : List Char) : Header × List Char :=
  match ending? cs with
  | some (e, r) => match increment? r with
    | some (n, r) => (⟨e, some n⟩, r)
    | none => (⟨e, none⟩, r)
  | none => match increment? cs with
    | some (n, r) => match ending? r with
      | some (e, r) => (⟨e, some n⟩, r)
      | none => (⟨.clip, some n⟩, r)
    | none => (⟨.clip, none⟩, cs)

/-- Past the line breaks in front of the next line that holds something, and past its indentation;
and those breaks. -/
def indentFrom (indent : Nat) (breaks : List Char) (index line column : Nat) :
    List Char → List Char × Cursor
  | [] => (breaks.reverse, ⟨[], index, line, column⟩)
  | c :: r =>
    if isBreak c then indentFrom indent (breakText c :: breaks) (index + 1) (line + 1) 0 r
    else if c == ' ' && column < indent then indentFrom indent breaks (index + 1) line (column + 1) r
    else (breaks.reverse, ⟨c :: r, index, line, column⟩)

def indented (indent : Nat) (c : Cursor) : List Char × Cursor :=
  indentFrom indent [] c.index c.line c.column c.rest

/-- The furthest column that the spaces in front of the next word reach. -/
def reach (column most : Nat) : List Char → Nat
  | [] => most
  | c :: r =>
    if isBreak c then reach 0 most r
    else if c == ' ' then reach (column + 1) (max most (column + 1)) r
    else most

/-- The lines of a block scalar: what they leave (backwards), then the break behind the last line
and the blank lines after it. -/
def linesFrom (folds : Bool) (indent : Nat) : Nat → List Char → List Char → Cursor →
    List Char × List Char × List Char × Cursor
  | 0, seen, breaks, c => (seen, [], breaks, c)
  | bound + 1, seen, breaks, c =>
    if c.column == indent && !c.rest.isEmpty then
      let (line, d) := c.span fun x => !isBreak x
      let seen := line.reverse ++ (breaks.reverse ++ seen)
      match d.rest with
      | [] => (seen, [], [], d)
      | b :: _ =>
        let (breaks, e) := indented indent d.newLine
        if e.column == indent && !e.rest.isEmpty then
          let folds := folds && breakText b == '\n' && !startsWithAny [' ', '\t'] c.rest
            && !startsWithAny [' ', '\t'] e.rest
          let join := if !folds then [breakText b] else if breaks.isEmpty then [' '] else []
          linesFrom folds indent bound (join ++ seen) breaks e
        else (seen, [breakText b], breaks, e)
    else (seen, [], breaks, c)

/-- The block scalar whose indicator stands here, in a structure whose content starts at the column
`floor`. -/
def blockScalar (floor : Nat) (c : Cursor) : Except Problem (List Char × Cursor) :=
  let folds := c.next == some '>'
  let (h, r) := header (c.rest.drop 1)
  let c := c.past (c.rest.take (c.rest.length - r.length))
  let (_, d) := c.span (· == ' ')
  let (_, d) := if d.next == some '#' then d.span (!isBreak ·) else ([], d)
  if !endsStrictly c.rest || h.indent == some 0 || !(d.rest.isEmpty || d.next.any isBreak) then
    .error .malformed
  else
    let d := if d.rest.isEmpty then d else d.newLine
    let least := max floor 1
    let (breaks, indent, d) := match h.indent with
      | some n =>
        let indent := least + n - 1
        let (breaks, e) := indented indent d
        (breaks, indent, e)
      | none =>
        let (breaks, e) := d.blankLines (· == ' ')
        (breaks, max least (reach d.column 0 d.rest), e)
    let (seen, last, breaks, d) := linesFrom folds indent d.rest.length [] breaks d
    let tail := match h.ending with
      | .strip => []
      | .clip => last
      | .keep => last ++ breaks
    .ok (seen.reverse ++ tail, d)

end SettingsHarvest.Yaml
