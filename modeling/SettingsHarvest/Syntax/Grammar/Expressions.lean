import SettingsHarvest.Syntax.Grammar.Markup

/-! Expressions.

Operands are read with a level: an operator belongs to the operand on its left only if it binds at
least that tightly. Two forms are settled by trying: a parenthesis may open the parameters of an
arrow function, and an angle bracket behind a name may open type arguments. -/
namespace SettingsHarvest.Syntax.Grammar
open Reader

variable (g : Grammar)

/-! ### Literals -/

def regexTail (inClass : Bool) : List Char → Option (List Char × List Char)
  | '\\' :: c :: r => (regexTail inClass r).map fun p => ('\\' :: c :: p.1, p.2)
  | c :: r =>
    if isLineEnd c then none
    else if c == '/' && !inClass then some ([], r)
    else
      let inside := if c == '[' then true else if c == ']' then false else inClass
      (regexTail inside r).map fun p => (c :: p.1, p.2)
  | [] => none

/-- A regular expression, where an operand is due. -/
def regex : Reader Piece := do
  let c ← cursor
  match c.start with
  | '/' :: r =>
    match regexTail false r with
    | some (body, rest) =>
      let flags := rest.takeWhile Char.isAlpha
      set (Cursor.at (rest.drop flags.length))
      let tail : List Piece :=
        if flags.isEmpty then [] else [⟨[], .leaf .regexFlags none "" (String.ofList flags)⟩]
      return Piece.join .regex ([⟨c.token.comments, .token none c.token.blank "/"⟩,
        ⟨[], .leaf .regexPattern none "" (String.ofList body)⟩, ⟨[], .token none "" "/"⟩] ++ tail)
    | none => failure
  | _ => failure

def templateString : Reader Piece :=
  template g .templateString (g.read (.sequence true)) .templateSubstitution

/-! ### Lists and objects -/

def spread : Reader Piece := do
  let dots ← mark "..."
  return Piece.join .spreadElement [dots, ← g.expression]

def element : Reader Piece := do
  if (← peek).isMark "..." then spread g else g.expression

def callArguments : Reader Piece := do
  return Piece.join .arguments (← commaList g.bound "(" ")" (single (element g)))

def arrayLiteral : Reader Piece := do
  return Piece.join .array (← commaList g.bound "[" "]" (single (element g)))

/-- The modifiers of a method in an object literal. -/
def methodModifiers : Reader (List Piece) := do
  let async ← orNothing (do
    let next ← peekSecond
    require ((← peek).isWord "async")
    require ((← modifierAhead ["async"]) || next.isMark "*")
    return [← keyword "async"])
  let star ← star?
  let accessor ← orNothing (do
    require star.isEmpty
    require (← modifierAhead ["get", "set"])
    return [(← take).mark])
  return async ++ star ++ accessor

def objectMember : Reader Piece := do
  if (← peek).isMark "..." then return ← spread g
  let modifiers ← methodModifiers
  let n ← propertyName g
  let t ← peek
  if t.isMark "(" || t.isMark "<" then methodRest g modifiers n
  else
    require modifiers.isEmpty
    if t.isMark ":" then
      let colon ← mark ":"
      return Piece.join .pair [n.as .key, colon, (← g.expression).as .value]
    else match n.node with
      | .leaf .propertyIdentifier _ blank text =>
        if t.isMark "=" then
          let sign ← mark "="
          return Piece.join .objectAssignmentPattern
            [⟨n.comments, .leaf .shorthandPropertyIdentifierPattern (some .left) blank text⟩, sign,
              (← g.expression).as .right]
        else return ⟨n.comments, .leaf .shorthandPropertyIdentifier none blank text⟩
      | _ => failure

def objectLiteral : Reader Piece := do
  return Piece.join .object (← commaList g.bound "\x7b" "\x7d" (single (objectMember g)))

/-! ### Arrow functions -/

def arrowBody : Reader Piece := do
  if (← peek).isMark "\x7b" then g.read .block else g.expression

/-- An arrow function with its parameters in parentheses. -/
def arrowFunction (front : List Piece) : Reader Piece := do
  let head ← signatureTail g
  let t ← peek
  require (t.isMark "=>" && !t.newline)
  let arrow ← mark "=>"
  return Piece.join .arrowFunction (front ++ head ++ [arrow, (← arrowBody g).as .body])

/-- An arrow function with one bare parameter. -/
def bareArrowFunction (front : List Piece) : Reader Piece := do
  let p ← name .identifier
  let arrow ← mark "=>"
  return Piece.join .arrowFunction (front ++ [p.as .parameter, arrow, (← arrowBody g).as .body])

def asyncArrowFunction : Reader Piece := do
  let k ← keyword "async"
  require (!(← peek).newline)
  arrowFunction g [k] <|> bareArrowFunction g [k]

def parenthesized : Reader Piece := do
  let opening ← mark "("
  let inner ← g.read (.sequence true)
  let ascription ← typeAscription? g
  return Piece.join .parenthesizedExpression (opening :: inner :: ascription ++ [← mark ")"])

/-- What an opening parenthesis starts. Without a result type the arrow tells; with one, the whole
head has to fit. -/
def parenthesizedOrArrow (typedArrow : Bool) : Reader Piece := do
  let c ← cursor
  match ← (do return some (← parenthesized g)) <|> pure none with
  | none =>
    set c
    arrowFunction g []
  | some p =>
    let after ← cursor
    if after.token.isMark "=>" then
      set c
      arrowFunction g []
    else if after.token.isMark ":" && typedArrow then
      (do
        set c
        arrowFunction g []) <|> (do
        set after
        return p)
    else return p

/-! ### Chains -/

def argumentsAhead (t : Token) : Bool := t.isMark "(" || t.isMark "`"

def anyArguments : Reader Piece := do
  if (← peek).isMark "`" then templateString g else callArguments g

/-- What may follow type arguments that are not followed by a call. -/
def endsInstantiation (t : Token) : Bool :=
  t.newline || t.shape == .finish
    || t.isAnyMark [")", "]", ",", ";", "\x7d", ":", ".", "?.", "="]

/-- Members, subscripts, calls and assertions behind an operand, nested to the left. -/
def chain (calls : Bool) (base : Piece) : Nat → Reader Piece
  | 0 => return base
  | n + 1 => do
    let t ← peek
    if t.isMark "." then
      let dot ← mark "."
      let p ← memberName
      chain calls (Piece.join .memberExpression [base.as .object, dot, p.as .property]) n
    else if t.isMark "?." && calls then
      let link := (← take)
      let next ← peek
      if next.isMark "(" then
        let args ← callArguments g
        chain calls (Piece.join .callExpression
          [base.as .function, link.mark, args.as .arguments]) n
      else if next.isMark "<" then
        let generics ← typeArguments? g
        let args ← callArguments g
        chain calls (Piece.join .callExpression
          ([base.as .function, link.mark] ++ generics ++ [args.as .arguments])) n
      else if next.isMark "[" then
        let opening ← mark "["
        let index ← g.read (.sequence true)
        let closing ← mark "]"
        chain calls (Piece.join .subscriptExpression
          [base.as .object, (link.leaf .optionalChain).as .optionalChain, opening,
            index.as .index, closing]) n
      else
        let p ← memberName
        chain calls (Piece.join .memberExpression
          [base.as .object, (link.leaf .optionalChain).as .optionalChain, p.as .property]) n
    else if t.isMark "[" then
      let opening ← mark "["
      let index ← g.read (.sequence true)
      let closing ← mark "]"
      chain calls (Piece.join .subscriptExpression
        [base.as .object, opening, index.as .index, closing]) n
    else if argumentsAhead t && calls then
      let args ← anyArguments g
      chain calls (Piece.join .callExpression [base.as .function, args.as .arguments]) n
    else if t.isMark "!" && !t.newline then
      let sign ← mark "!"
      chain calls (Piece.join .nonNullExpression [base, sign]) n
    else if t.isMark "<" && calls then
      let c ← cursor
      match ← (do
          let generics ← typeArguments? g
          let next ← peek
          require (argumentsAhead next || endsInstantiation next)
          return some generics) <|> pure none with
      | some generics =>
        let next ← peek
        if argumentsAhead next then
          let args ← anyArguments g
          chain calls (Piece.join .callExpression
            ([base.as .function] ++ generics ++ [args.as .arguments])) n
        else chain calls (Piece.join .instantiationExpression ([base.as .function] ++ generics)) n
      | none =>
        set c
        return base
    else return base
where
  memberName : Reader Piece := do
    let t ← peek
    if t.shape == .privateName then return (← take).leaf .privatePropertyIdentifier
    else anyWord .propertyIdentifier

/-! ### Operands -/

/-- The words and marks an operand can start with; they tell `await` and `yield` from names. -/
def startsOperand (t : Token) : Bool :=
  match t.shape with
  | .word => !t.isAnyWord ["in", "instanceof", "of", "as", "satisfies"]
  | .quoted | .numeral => true
  | .mark => t.isAnyMark ["(", "[", "\x7b", "`", "!", "~", "+", "-", "++", "--", "/", "<", "@"]
  | _ => false

def newExpression (primary : Reader Piece) : Reader Piece := do
  let k ← keyword "new"
  if (← peek).isMark "." then
    let dot ← mark "."
    return Piece.join .metaProperty [k, dot, ← keyword "target"]
  let first ← (do if (← peek).isWord "new" then g.read .unary else primary)
  let target ← chain g false first g.bound
  let generics ← orNothing (do
    let found ← typeArguments? g
    require ((← peek).isMark "(" || !found.isEmpty)
    return found)
  let args ← ifMark "(" (do return [(← callArguments g).as .arguments])
  return Piece.join .newExpression ([k, target.as .constructor] ++ generics ++ args)

def importExpression : Reader Piece := do
  let t ← take
  let next ← peek
  if next.isMark "." then
    let dot ← mark "."
    return Piece.join .metaProperty [t.mark, dot, ← keyword "meta"]
  require (next.isMark "(")
  return t.leaf .importKeyword

/-- An operand without members, calls or operators. -/
def primaryRule (typedArrow : Bool) : Nat → Reader Piece
  | 0 => failure
  | n + 1 => do
    let t ← peek
    match t.shape with
    | .numeral => return (← take).leaf .number
    | .quoted => quoted
    | .privateName => return (← take).leaf .privatePropertyIdentifier
    | .mark =>
      if t.text == "(" then parenthesizedOrArrow g typedArrow
      else if t.text == "[" then arrayLiteral g
      else if t.text == "\x7b" then objectLiteral g
      else if t.text == "`" then templateString g
      else if t.text == "/" || t.text == "/=" then regex
      else if t.text == "@" then
        let marks ← decorators g
        classRest g .classExpression marks
      else if t.text == "<" && g.markup then
        arrowWhenGeneric <|> (do
          let e ← g.read .markup
          let _ ← take
          return e)
      else failure
    | .word =>
      match t.text with
      | "function" => functionExpression g
      | "class" => classRest g .classExpression []
      | "new" => newExpression g (primaryRule typedArrow n)
      | "this" => return (← take).leaf .thisExpression
      | "super" => return (← take).leaf .superExpression
      | "true" => return (← take).leaf .trueLiteral
      | "false" => return (← take).leaf .falseLiteral
      | "null" => return (← take).leaf .nullLiteral
      | "undefined" => return (← take).leaf .undefinedLiteral
      | "import" => importExpression
      | _ =>
        let next ← peekSecond
        if t.text == "async" && next.isWord "function" && !next.newline then functionExpression g
        else if t.text == "async" && !next.newline && (next.isMark "(" || next.isMark "<"
            || (next.shape == .word && !reservedWords.contains next.text)) then
          asyncArrowFunction g <|> name .identifier
        else if next.isMark "=>" && !next.newline then bareArrowFunction g []
        else name .identifier
    | .finish => failure
where
  /-- In a markup source, an angle bracket opens type parameters only where a comma or a limit
  follows the first name. -/
  arrowWhenGeneric : Reader Piece := do
    let c ← cursor
    let _ ← take
    let _ ← name .typeIdentifier
    let t ← peek
    require (t.isMark "," || t.isWord "extends")
    set c
    arrowFunction g []

/-- An operand with what binds tighter than any operator between two operands. -/
def unaryRule (typedArrow : Bool) : Nat → Reader Piece
  | 0 => failure
  | n + 1 => do
    let t ← peek
    let next ← peekSecond
    if t.isAnyMark ["!", "~", "-", "+"] || t.isAnyWord ["typeof", "void", "delete"] then
      let sign := (← take).mark
      return Piece.join .unaryExpression
        [sign.as .operator, (← unaryRule true n).as .argument]
    else if t.isAnyMark ["++", "--"] then
      let sign := (← take).mark
      return Piece.join .updateExpression
        [sign.as .operator, (← unaryRule true n).as .argument]
    else if t.isWord "await" && startsOperand next && !next.isMark "=>" then
      let k ← keyword "await"
      return Piece.join .awaitExpression [k, ← unaryRule true n]
    else if t.isMark "<" && !g.markup then
      arrowFunction g [] <|> (do
        let types ← g.read .typeArguments
        return Piece.join .typeAssertion [types, ← unaryRule true n])
    else
      let first ← primaryRule g typedArrow g.bound
      if first.hasKind .arrowFunction then return first
      let operand ← chain g true first g.bound
      let after ← peek
      if after.isAnyMark ["++", "--"] && !after.newline then
        let sign := (← take).mark
        return Piece.join .updateExpression [operand.as .argument, sign.as .operator]
      else return operand

/-! ### Operators -/

/-- How tightly an operator between two operands binds. -/
def operatorLevel (t : Token) (allowIn : Bool) : Option Nat :=
  match t.shape with
  | .mark => match t.text with
    | "??" => some 1
    | "||" => some 2
    | "&&" => some 3
    | "|" => some 4
    | "^" => some 5
    | "&" => some 6
    | "==" | "!=" | "===" | "!==" => some 7
    | "<" | ">" | "<=" | ">=" => some 8
    | "<<" | ">>" | ">>>" => some 9
    | "+" | "-" => some 10
    | "*" | "/" | "%" => some 11
    | "**" => some 12
    | _ => none
  | .word => match t.text with
    | "instanceof" => some 8
    | "in" => if allowIn then some 8 else none
    | "as" | "satisfies" => if t.newline then none else some 8
    | _ => none
  | _ => none

/-- Whether a type is a name with two dots or more. -/
def isLongPath (p : Piece) : Bool :=
  p.hasKind .nestedTypeIdentifier && (p.node.part? .module).any (·.hasKind .nestedIdentifier)

/-- The first two names of a path, as the name of a type. An assertion takes no more than these; the
rest of the path reads members of the asserted expression. -/
def shortPath : Reader Piece := do
  let module ← name .identifier
  let dot ← mark "."
  let last ← name .typeIdentifier
  return Piece.join .nestedTypeIdentifier [module.as .module, dot, last.as .name]

/-- Operators at least as tight as a level, applied from the left. -/
def operators (level : Nat) (allowIn : Bool) (left : Piece) : Nat → Reader Piece
  | 0 => return left
  | n + 1 => do
    let t ← peek
    match operatorLevel t allowIn with
    | none => return left
    | some l =>
      if l < level then return left
      if t.isWord "as" || t.isWord "satisfies" then
        let k := (← take).mark
        let kind := if t.text == "as" then Kind.asExpression else .satisfiesExpression
        let c ← cursor
        let target ← (do
          if (← peek).isWord "const" then keyword "const" else g.type)
        if isLongPath target then
          set c
          let short ← shortPath
          operators level allowIn (← chain g true (Piece.join kind [left, k, short]) g.bound) n
        else operators level allowIn (Piece.join kind [left, k, target]) n
      else
        let sign := (← take).mark
        let tighter := if t.text == "**" then l else l + 1
        let right ← g.read (.operand tighter allowIn)
        operators level allowIn (Piece.join .binaryExpression
          [left.as .left, sign.as .operator, right.as .right]) n

def operandRule (level : Nat) (allowIn typedArrow : Bool) : Reader Piece := do
  let first ← unaryRule g typedArrow g.bound
  operators g level allowIn first g.bound

def assignmentMarks : List String :=
  ["+=", "-=", "*=", "/=", "%=", "**=", "<<=", ">>=", ">>>=", "&=", "|=", "^=", "&&=", "||=",
   "??="]

def expressionRule (allowIn typedArrow : Bool) : Reader Piece := do
  let c ← cursor
  if c.token.isWord "yield" then
    let k ← keyword "yield"
    let t ← peek
    if t.isMark "*" then
      let star ← mark "*"
      return Piece.join .yieldExpression [k, star, ← g.read (.expression allowIn typedArrow)]
    if startsOperand t && !t.newline then
      return Piece.join .yieldExpression [k, ← g.read (.expression allowIn typedArrow)]
    if !t.isMark "=>" then return Piece.join .yieldExpression [k]
    set c
  let left ← operandRule g 0 allowIn typedArrow
  let t ← peek
  if t.isMark "?" then
    let question ← mark "?"
    let yes ← g.read (.expression true false)
    let colon ← mark ":"
    let no ← g.read (.expression allowIn typedArrow)
    return Piece.join .ternaryExpression
      [left.as .condition, question, yes.as .consequence, colon, no.as .alternative]
  else if t.isMark "=" then
    let target ← (
      if left.hasKind .array || left.hasKind .object then do
        set c
        g.read .pattern
      else pure left)
    let sign ← mark "="
    return Piece.join .assignmentExpression
      [target.as .left, sign, (← g.read (.expression allowIn typedArrow)).as .right]
  else if t.isAnyMark assignmentMarks then
    let sign := (← take).mark
    return Piece.join .augmentedAssignmentExpression
      [left.as .left, sign.as .operator, (← g.read (.expression allowIn typedArrow)).as .right]
  else return left

/-- Expressions with commas between them. -/
def sequenceRule (allowIn : Bool) : Reader Piece := do
  let first ← g.read (.expression allowIn true)
  let rec more : Nat → Reader (List Piece)
    | 0 => return []
    | n + 1 => do
      if !(← peek).isMark "," then return []
      let comma ← mark ","
      let e ← g.read (.expression allowIn true)
      return comma :: e :: (← more n)
  let rest ← more g.bound
  if rest.isEmpty then return first
  return Piece.join .sequenceExpression (first :: rest)

end SettingsHarvest.Syntax.Grammar
