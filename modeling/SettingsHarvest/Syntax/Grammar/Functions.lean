import SettingsHarvest.Syntax.Grammar.Types

/-! Binding patterns, parameters, functions and classes.

A parameter is a pattern with an optional type and an optional default; only the patterns bind
names. Methods, getters and fields of classes and object literals share the rules for the names and
modifiers in front of them. -/
namespace SettingsHarvest.Syntax.Grammar
open Reader

variable (g : Grammar)

/-! ### Patterns -/

/-- A pattern with the default it takes where nothing is given. -/
def patternWithDefault (k : Kind) : Reader Piece := do
  let p ← g.read .pattern
  if (← peek).isMark "=" then
    let sign ← mark "="
    return Piece.join k [p.as .left, sign, (← g.expression).as .right]
  else return p

def restPattern : Reader Piece := do
  let dots ← mark "..."
  return Piece.join .restPattern [dots, ← g.read .pattern]

def objectPatternMember : Reader Piece := do
  if (← peek).isMark "..." then return ← restPattern g
  let next ← peekSecond
  if (← peek).shape == .word && !next.isMark ":" then
    let n ← name .shorthandPropertyIdentifierPattern
    if (← peek).isMark "=" then
      let sign ← mark "="
      return Piece.join .objectAssignmentPattern [n.as .left, sign, (← g.expression).as .right]
    else return n
  else
    let key ← propertyName g
    let colon ← mark ":"
    let value ← patternWithDefault g .assignmentPattern
    return Piece.join .pairPattern [key.as .key, colon, value.as .value]

/-- A member or an element as the target of an assignment. -/
def placePattern : Reader Piece := do
  let place ← g.read .unary
  require (place.hasKind .memberExpression || place.hasKind .subscriptExpression)
  return place

/-- Whether a member or an element is read from the name that stands here. -/
def placeAhead : Reader Bool := do
  let next ← peekSecond
  return next.isMark "." || (next.isAnyMark ["[", "("] && !next.newline)

def patternRule : Reader Piece := do
  let t ← peek
  if t.isMark "\x7b" then
    return Piece.join .objectPattern
      (← commaList g.bound "\x7b" "\x7d" (single (objectPatternMember g)))
  else if t.isMark "[" then
    return Piece.join .arrayPattern (← commaList g.bound "[" "]" (single (do
      if (← peek).isMark "..." then restPattern g
      else patternWithDefault g .assignmentPattern)))
  else if t.isMark "..." then restPattern g
  else if ← placeAhead then placePattern g
  else name .identifier

/-! ### Decorators -/

def decorator : Reader Piece := do
  let sign ← mark "@"
  if (← peek).isMark "(" then
    let opening ← mark "("
    let inner ← g.expression
    return Piece.join .decorator
      [sign, Piece.join .parenthesizedExpression [opening, inner, ← mark ")"]]
  let first ← name .identifier
  let rec chain (base : Piece) : Nat → Reader Piece
    | 0 => return base
    | n + 1 => do
      let t ← peek
      if t.isMark "." then
        let dot ← mark "."
        let p ← anyWord .propertyIdentifier
        chain (Piece.join .memberExpression [base.as .object, dot, p.as .property]) n
      else if t.isMark "(" then
        let args ← commaList g.bound "(" ")" (single g.expression)
        chain (Piece.join .callExpression
          [base.as .function, (Piece.join .arguments args).as .arguments]) n
      else return base
  return Piece.join .decorator [sign, ← chain first g.bound]

def decorators : Reader (List Piece) :=
  itemsUntil (!·.isMark "@") (do return [(← decorator g).as .decorator]) g.bound

/-! ### Parameters -/

/-- A modifier of a parameter or member, in the kind the grammar has for it. -/
def modifierPiece (t : Token) : Piece :=
  if ["public", "private", "protected"].contains t.text then t.leaf .accessibilityModifier
  else if t.text == "override" then t.leaf .overrideModifier
  else t.mark

def parameterModifiers : Nat → Reader (List Piece)
  | 0 => return []
  | n + 1 => do
    let t ← peek
    let next ← peekSecond
    if t.isAnyWord ["public", "private", "protected", "readonly", "override"]
        && (next.shape == .word || next.isMark "\x7b" || next.isMark "[") then
      let m := modifierPiece (← take)
      return m :: (← parameterModifiers n)
    else return []

def parameter : Reader Piece := do
  let marks ← decorators g
  let modifiers ← parameterModifiers g.bound
  let p ← (do
    if (← peek).isWord "this" then return (← take).leaf .thisExpression
    else g.read .pattern)
  let question ← mark? "?"
  let ascription ← typeAscription? g
  let value ← ifMark "=" (do
    let sign ← mark "="
    return [sign, (← g.expression).as .value])
  let k := if question.isEmpty then .requiredParameter else .optionalParameter
  return Piece.join k (marks ++ modifiers ++ [p.as .pattern] ++ question ++ ascription ++ value)

def parametersRule : Reader Piece := do
  return Piece.join .formalParameters (← commaList g.bound "(" ")" (single (parameter g)))

/-! ### Functions -/

/-- Type parameters, parameters and result, then the body. -/
def callableTail : Reader (List Piece) := do
  let head ← signatureTail g
  return head ++ [(← g.read .block).as .body]

/-- A function without a name of its own, or with one, in an expression. -/
def functionExpression : Reader Piece := do
  let async ← keyword? "async"
  let k ← keyword "function"
  let star ← mark? "*"
  let n ← (do
    if (← peek).isMark "(" || (← peek).isMark "<" then return []
    else return [(← name .identifier).as .name])
  let kind := if star.isEmpty then .functionExpression else .generatorFunction
  return Piece.join kind (async ++ [k] ++ star ++ n ++ (← callableTail g))

/-- A method, getter or setter, its modifiers already read. -/
def methodRest (marks : List Piece) (n : Piece) : Reader Piece := do
  let question ← mark? "?"
  return Piece.join .methodDefinition (marks ++ [n.as .name] ++ question ++ (← callableTail g))

/-- A star in front of a generator method. -/
def star? : Reader (List Piece) := mark? "*"

/-! ### Classes -/

def classModifierWords : List String :=
  ["declare", "public", "private", "protected", "static", "override", "abstract", "readonly",
   "accessor", "async", "get", "set"]

def classModifiers : Nat → Reader (List Piece)
  | 0 => return []
  | n + 1 => do
    let t ← peek
    let next ← peekSecond
    if t.isAnyWord classModifierWords
        && (next.shape == .word || next.shape == .quoted || next.shape == .numeral
          || next.shape == .privateName || next.isMark "[" || next.isMark "*") then
      let m := modifierPiece (← take)
      return m :: (← classModifiers n)
    else return []

/-- A member of a class with what ends it. -/
def classMember : Reader (List Piece) := do
  let marks ← decorators g
  if (← peek).isWord "static" && (← peekSecond).isMark "\x7b" then
    let k ← keyword "static"
    return [Piece.join .classStaticBlock [k, (← g.read .block).as .body]]
  let modifiers ← classModifiers g.bound
  let star ← star?
  if (← peek).isMark "[" && star.isEmpty then
    let c ← cursor
    match ← (do return some (← indexSignature g)) <|> pure none with
    | some signature => return signature :: (← statementEnd)
    | none => set c
  let n ← propertyName g
  let sign ← orNothing (do
    require ((← peek).isAnyMark ["?", "!"])
    return [(← take).mark])
  let t ← peek
  if t.isMark "(" || t.isMark "<" then
    let head ← signatureTail g
    if (← peek).isMark "\x7b" then
      return [Piece.join .methodDefinition
        (marks ++ modifiers ++ star ++ [n.as .name] ++ sign ++ head
          ++ [(← g.read .block).as .body])]
    else
      let k := if modifiers.any (fun m => m.node.text == "abstract")
        then Kind.abstractMethodSignature else .methodSignature
      let signature := Piece.join k (marks ++ modifiers ++ [n.as .name] ++ sign ++ head)
      return signature :: (← statementEnd)
  else
    let ascription ← typeAscription? g
    let value ← ifMark "=" (do
      let sign ← mark "="
      return [sign, (← g.expression).as .value])
    let field := Piece.join .publicFieldDefinition
      (marks ++ modifiers ++ [n.as .name] ++ sign ++ ascription ++ value)
    return field :: (← statementEnd)

def classBody : Reader Piece := do
  let opening ← mark "\x7b"
  let members ← itemsUntil (·.isMark "\x7d") (do
    if (← peek).isMark ";" then single (mark ";") else classMember g) g.bound
  return Piece.join .classBody (opening :: members ++ [← mark "\x7d"])

/-- The tightest expression a class can extend: a chain of names and calls. -/
def classHeritage : Reader (List Piece) := do
  let extended ← ifWord "extends" (do
    let k ← keyword "extends"
    let base ← g.read .unary
    let generics ← typeArguments? g
    return [Piece.join .extendsClause ([k, base.as .value] ++ generics)])
  let implemented ← ifWord "implements" (do
    let k ← keyword "implements"
    let first ← g.type
    let rec more : Nat → Reader (List Piece)
      | 0 => return []
      | n + 1 => do
        if !(← peek).isMark "," then return []
        let comma ← mark ","
        let t ← g.type
        return comma :: t :: (← more n)
    return [Piece.join .implementsClause (k :: first :: (← more g.bound))])
  if extended.isEmpty && implemented.isEmpty then return []
  return [Piece.join .classHeritage (extended ++ implemented)]

/-- A class, the words in front of `class` already read. -/
def classRest (k : Kind) (front : List Piece) : Reader Piece := do
  let word ← keyword "class"
  let n ← (do
    let t ← peek
    if t.isMark "\x7b" || t.isMark "<" || t.isAnyWord ["extends", "implements"] then return []
    else return [(← name .typeIdentifier).as .name])
  let generics ← typeParameters? g
  let heritage ← classHeritage g
  let body := (← classBody g).as .body
  return Piece.join k (front ++ [word] ++ n ++ generics ++ heritage ++ [body])

end SettingsHarvest.Syntax.Grammar
