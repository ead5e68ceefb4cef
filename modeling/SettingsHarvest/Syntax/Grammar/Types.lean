import SettingsHarvest.Syntax.Reader

/-! Types.

Unions and intersections nest to the left, and a leading bar makes a union of one. `readonly` takes
the whole type that follows it, `keyof` and `typeof` only the tightest. -/
namespace SettingsHarvest.Syntax.Grammar
open Reader

variable (g : Grammar)

/-- `: T`. -/
def typeAscription : Reader Piece := do
  let colon ← mark ":"
  return Piece.join .typeAscription [colon, ← g.type]

def typeAscription? : Reader (List Piece) :=
  ifMark ":" (do return [(← typeAscription g).as .type])

/-- `x is T` or `this is T`. -/
def typePredicate : Reader Piece := do
  let subject ← (name .identifier <|> (do return (← keyword "this")))
  let is ← keyword "is"
  return Piece.join .typePredicate [subject.as .name, is, (← g.type).as .type]

/-- What stands behind the parameters of a function: a type, or a promise about an argument. -/
def resultAscription : Reader Piece := do
  let colon ← mark ":"
  (do
    let asserts ← keyword "asserts"
    let t ← peek
    require (t.shape == .word && !t.newline)
    let body ← (typePredicate g <|> name .identifier <|> keyword "this")
    return Piece.join .assertsAscription [colon, Piece.join .asserts [asserts, body]])
  <|> (do return Piece.join .predicateAscription [colon, ← typePredicate g])
  <|> (do return Piece.join .typeAscription [colon, ← g.type])

def resultAscription? : Reader (List Piece) :=
  ifMark ":" (do return [(← resultAscription g).as .returnType])

/-! ### Lists of types -/

/-- `<A, B>`. -/
def typeArguments : Reader Piece := do
  let opening ← mark "<"
  let items ← itemsUntil (fun t => t.shape == .mark && t.text.toList.head? == some '>') (do
    if (← peek).isMark "," then single (mark ",") else single g.type) g.bound
  let closing ← closeAngle
  return Piece.join .typeArguments (opening :: items ++ [closing])

def typeArguments? : Reader (List Piece) :=
  ifMark "<" (do return [(← g.read .typeArguments).as .typeArguments])

def typeParameter : Reader Piece := do
  let modifier ← orNothing (do
    let t ← peek
    require (t.isAnyWord ["const", "in", "out"])
    require ((← peekSecond).shape == .word)
    return [(← take).mark])
  let name ← name .typeIdentifier
  let limit ← ifWord "extends" (do
    let k ← keyword "extends"
    return [Piece.join .constraint [k, ← g.type]])
  let default ← ifMark "=" (do
    let k ← mark "="
    return [(Piece.join .defaultType [k, ← g.type]).as .value])
  return Piece.join .typeParameter (modifier ++ [name.as .name] ++ limit ++ default)

/-- `<T extends A = B>`. -/
def typeParameters : Reader Piece := do
  let opening ← mark "<"
  let items ← itemsUntil (fun t => t.shape == .mark && t.text.toList.head? == some '>') (do
    if (← peek).isMark "," then single (mark ",") else single (typeParameter g)) g.bound
  let closing ← closeAngle
  return Piece.join .typeParameters (opening :: items ++ [closing])

def typeParameters? : Reader (List Piece) :=
  ifMark "<" (do return [(← g.read .typeParameters).as .typeParameters])

/-! ### Members of object types -/

/-- A name of a member: a word, a quoted text, a numeral, a private name or a computed one. -/
def propertyName : Reader Piece := do
  let t ← peek
  match t.shape with
  | .word => anyWord .propertyIdentifier
  | .quoted => quoted
  | .numeral => return (← take).leaf .number
  | .privateName => return (← take).leaf .privatePropertyIdentifier
  | _ => do
    let opening ← mark "["
    let inner ← g.expression
    return Piece.join .computedPropertyName [opening, inner, ← mark "]"]

/-- A word in front of a member's name is a modifier when another name follows it. -/
def modifierAhead (words : List String) : Reader Bool := do
  let t ← peek
  if !t.isAnyWord words then return false
  let next ← peekSecond
  return next.shape == .word || next.shape == .quoted || next.shape == .numeral
    || next.shape == .privateName || next.isMark "["

/-- The modifiers in front of a member's name. -/
def modifiers (words : List String) : Nat → Reader (List Piece)
  | 0 => return []
  | n + 1 => do
    if ← modifierAhead words then
      let m := (← take).mark
      return m :: (← modifiers words n)
    else return []

def typeMemberModifiers : List String :=
  ["readonly", "get", "set", "static", "public", "private", "protected", "override"]

/-- Parameters and result, as methods and call signatures have them. -/
def signatureTail : Reader (List Piece) := do
  let generics ← typeParameters? g
  let parameters := (← g.read .parameters).as .parameters
  let result ← resultAscription? g
  return generics ++ [parameters] ++ result

def indexSignature : Reader Piece := do
  let readonly ← orNothing (do
    let sign ← orNothing (do
      require ((← peek).isAnyMark ["+", "-"])
      return [(← take).mark])
    return sign ++ [← keyword "readonly"])
  let opening ← mark "["
  let inner ← (do
      let n ← name .identifier
      let colon ← mark ":"
      return [n.as .name, colon, ← g.type])
    <|> (do
      let n ← name .typeIdentifier
      let k ← keyword "in"
      let range ← g.type
      let renamed ← ifWord "as" (do return [← keyword "as", ← g.type])
      return [Piece.join .mappedTypeClause ([n.as .name, k, range.as .type] ++ renamed)])
  let closing ← mark "]"
  let sign ← orNothing (do
    require ((← peek).isAnyMark ["+", "-"])
    return [(← take).mark])
  let question ← mark? "?"
  let ascription ← typeAscription? g
  return Piece.join .indexSignature
    (readonly ++ [opening] ++ inner ++ [closing] ++ sign ++ question ++ ascription)

def typeMember : Reader Piece := do
  let t ← peek
  if t.isMark "(" || t.isMark "<" then
    return Piece.join .callSignature (← signatureTail g)
  (do
    let k ← keyword "new"
    let next ← peek
    require (next.isMark "(" || next.isMark "<")
    return Piece.join .constructSignature (k :: (← signatureTail g)))
  <|> indexSignature g
  <|> (do
    let modifiers ← modifiers typeMemberModifiers g.bound
    let n := (← propertyName g).as .name
    let question ← mark? "?"
    let next ← peek
    if next.isMark "(" || next.isMark "<" then
      return Piece.join .methodSignature (modifiers ++ [n] ++ question ++ (← signatureTail g))
    else
      return Piece.join .propertySignature (modifiers ++ [n] ++ question ++ (← typeAscription? g)))

/-- Members between braces, with semicolons, commas or line breaks between them. -/
def typeMembers (k : Kind) : Reader Piece := do
  let opening ← mark "\x7b"
  let items ← itemsUntil (·.isMark "\x7d") (do
    let t ← peek
    if t.isMark "," || t.isMark ";" then return [(← take).mark]
    else
      let m ← typeMember g
      let next ← peek
      require (next.isMark "," || next.isMark ";" || next.isMark "\x7d" || next.newline)
      return [m]) g.bound
  return Piece.join k (opening :: items ++ [← mark "\x7d"])

/-! ### Types, from tight to loose -/

def predefinedTypes : List String :=
  ["any", "number", "boolean", "string", "symbol", "void", "unknown", "never", "object"]

/-- `a.b.c` as a module path, given its first name. -/
def nestedName (first : Piece) : Nat → Reader Piece
  | 0 => return first
  | n + 1 => do
    let t ← peek
    if !t.isMark "." then return first
    let dot ← mark "."
    let next ← anyWord .propertyIdentifier
    nestedName (Piece.join .nestedIdentifier [first.as .object, dot, next.as .property]) n

/-- Names with dots between them, turned into the name of a type. -/
def typeName : Reader Piece := do
  let c ← cursor
  let first ← name .identifier
  let path ← nestedName first g.bound
  match path.node with
  | .tree _ _ parts =>
    match parts with
    | [module, .token r b t, .leaf _ _ lb lt] =>
      return ⟨path.comments, .tree .nestedTypeIdentifier none
        [module.withRole .module, .token r b t, .leaf .typeIdentifier (some .name) lb lt]⟩
    | _ => return path
  | _ =>
    set c
    name .typeIdentifier

def functionType : Reader Piece := do
  let generics ← typeParameters? g
  let parameters := (← g.read .parameters).as .parameters
  let arrow ← mark "=>"
  let result ← ((do
      let asserts ← keyword "asserts"
      let body ← (typePredicate g <|> name .identifier)
      return Piece.join .asserts [asserts, body])
    <|> typePredicate g <|> g.type)
  return Piece.join .functionType (generics ++ [parameters, arrow, result.as .returnType])

def tupleMember : Reader Piece := do
  let t ← peek
  if t.isMark "..." then
    let dots ← mark "..."
    (do
      let n ← name .identifier
      let ascription ← typeAscription g
      return Piece.join .requiredParameter
        [(Piece.join .restPattern [dots, n]).as .pattern, ascription.as .type])
    <|> (do return Piece.join .restType [dots, ← g.type])
  else
    (do
      let n ← name .identifier
      let question ← mark? "?"
      let ascription ← typeAscription g
      let k := if question.isEmpty then .requiredParameter else .optionalParameter
      return Piece.join k ([n.as .pattern] ++ question ++ [ascription.as .type]))
    <|> (do
      let inner ← g.type
      if (← peek).isMark "?" then return Piece.join .optionalType [inner, ← mark "?"]
      else return inner)

/-- A template used as a type: raw text with types in the gaps. -/
def templateParts (inner : Reader Piece) (gap : Kind) : Nat → List Char → Reader (List Piece)
  | 0, _ => failure
  | n + 1, cs => do
    let (raw, rest) := split cs []
    let fragment : List Piece :=
      if raw.isEmpty then [] else [⟨[], .leaf .stringFragment none "" (String.ofList raw)⟩]
    match rest with
    | '`' :: r =>
      set (Cursor.at r)
      return fragment ++ [⟨[], .token none "" "`"⟩]
    | '$' :: '\x7b' :: r =>
      set (Cursor.at r)
      let e ← inner
      let c ← cursor
      require (c.token.isMark "\x7d")
      let hole := Piece.join gap [⟨[], .token none "" "$\x7b"⟩, e, c.token.mark]
      return fragment ++ [hole] ++ (← templateParts inner gap n c.rest)
    | _ => failure
where
  split : List Char → List Char → List Char × List Char
    | '\\' :: c :: r, acc => split r (c :: '\\' :: acc)
    | '`' :: r, acc => (acc.reverse, '`' :: r)
    | '$' :: '\x7b' :: r, acc => (acc.reverse, '$' :: '\x7b' :: r)
    | c :: r, acc => split r (c :: acc)
    | [], acc => (acc.reverse, [])

/-- A template, from its opening quote to its closing one. -/
def template (k : Kind) (inner : Reader Piece) (gap : Kind) : Reader Piece := do
  let c ← cursor
  require (c.token.isMark "`")
  let parts ← templateParts inner gap g.bound c.rest
  return Piece.join k (c.token.mark :: parts)

def primaryType : Reader Piece := do
  let t ← peek
  match t.shape with
  | .quoted => return Piece.join .literalType [← quoted]
  | .numeral => return Piece.join .literalType [(← take).leaf .number]
  | .word =>
    if predefinedTypes.contains t.text then
      return (← take).leaf .predefinedType
    else if t.text == "unique" then
      (do
        let u ← keyword "unique"
        let s ← keyword "symbol"
        return Piece.join .predefinedType [u, s]) <|> typeName g
    else match t.text with
      | "true" => return Piece.join .literalType [(← take).leaf .trueLiteral]
      | "false" => return Piece.join .literalType [(← take).leaf .falseLiteral]
      | "null" => return Piece.join .literalType [(← take).leaf .nullLiteral]
      | "undefined" => return Piece.join .literalType [(← take).leaf .undefinedLiteral]
      | "this" => return (← take).leaf .thisType
      | "const" => return (← take).mark
      | "import" => do
        let k := (← take).leaf .importKeyword
        let args ← commaList g.bound "(" ")" (single g.expression)
        let call := Piece.join .callExpression
          [k.as .function, (Piece.join .arguments args).as .arguments]
        let path ← nestedName call g.bound
        let generics ← typeArguments? g
        if generics.isEmpty then return path
        else return Piece.join .genericType ([path.as .name] ++ generics)
      | _ => do
        let n ← typeName g
        let next ← peek
        if next.isMark "<" && !next.newline then
          return Piece.join .genericType ([n.as .name] ++ (← typeArguments? g))
        else return n
  | .mark =>
    if t.text == "(" then
      functionType g <|> (do
        let opening ← mark "("
        let inner ← g.type
        return Piece.join .parenthesizedType [opening, inner, ← mark ")"])
    else if t.text == "<" then functionType g
    else if t.text == "[" then
      return Piece.join .tupleType (← commaList g.bound "[" "]" (single (tupleMember g)))
    else if t.text == "\x7b" then typeMembers g .objectType
    else if t.text == "`" then template g .templateLiteralType g.type .templateType
    else if t.text == "-" || t.text == "+" then do
      let sign := (← take).mark
      require ((← peek).shape == .numeral)
      let n := (← take).leaf .number
      return Piece.join .literalType
        [Piece.join .unaryExpression [sign.as .operator, n.as .argument]]
    else failure
  | _ => failure

/-- Brackets behind a type, on the same line: a list of it, or a look-up in it. -/
def postfixType (base : Piece) : Nat → Reader Piece
  | 0 => return base
  | n + 1 => do
    let t ← peek
    if t.isMark "[" && !t.newline then
      let opening ← mark "["
      if (← peek).isMark "]" then
        postfixType (Piece.join .arrayType [base, opening, ← mark "]"]) n
      else
        let key ← g.type
        postfixType (Piece.join .lookupType [base, opening, key, ← mark "]"]) n
    else return base

def typeQuery : Reader Piece := do
  let k ← keyword "typeof"
  let first ← (name .identifier <|> (do return (← keyword "this"))
    <|> (do
      let i := (do return (← take).leaf .importKeyword : Reader Piece)
      require ((← peek).isWord "import")
      let i ← i
      let args ← commaList g.bound "(" ")" (single g.expression)
      return Piece.join .callExpression
        [i.as .function, (Piece.join .arguments args).as .arguments]))
  let rec members (base : Piece) : Nat → Reader Piece
    | 0 => return base
    | n + 1 => do
      if !(← peek).isMark "." then return base
      let dot ← mark "."
      let p ← (anyWord .propertyIdentifier <|> (do
        require ((← peek).shape == .privateName)
        return (← take).leaf .privatePropertyIdentifier))
      members (Piece.join .memberExpression [base.as .object, dot, p.as .property]) n
  let path ← members first g.bound
  let next ← peek
  if next.isMark "<" && !next.newline then
    let generics ← typeArguments? g
    return Piece.join .typeQuery
      [k, Piece.join .instantiationExpression ([path.as .function] ++ generics)]
  return Piece.join .typeQuery [k, path]

/-- A word that is an operator on types when a type follows on the same line. -/
def typeOperatorAhead (w : String) : Reader Bool := do
  if !(← peek).isWord w then return false
  let next ← peekSecond
  return (next.shape == .word && !next.newline && !next.isAnyWord ["extends", "is", "as"])
    || next.shape == .quoted || next.shape == .numeral || next.isAnyMark ["(", "[", "\x7b", "`"]

def operatorType : Nat → Reader Piece
  | 0 => failure
  | n + 1 => do
    if ← typeOperatorAhead "keyof" then
      let k ← keyword "keyof"
      return Piece.join .indexTypeQuery [k, ← operatorType n]
    else if ← typeOperatorAhead "readonly" then
      let k ← keyword "readonly"
      return Piece.join .readonlyType [k, ← g.type]
    else if ← typeOperatorAhead "infer" then
      let k ← keyword "infer"
      let found ← name .typeIdentifier
      let limit ← ifWord "extends" (do return [← keyword "extends", ← g.type])
      return Piece.join .inferType ([k, found] ++ limit)
    else if (← peek).isWord "typeof" then
      postfixType g (← typeQuery g) g.bound
    else if (← peek).isWord "new" || ((← peek).isWord "abstract" && (← peekSecond).isWord "new") then
      let a ← keyword? "abstract"
      let k ← keyword "new"
      let generics ← typeParameters? g
      let parameters := (← g.read .parameters).as .parameters
      let arrow ← mark "=>"
      let result ← g.type
      return Piece.join .constructorType
        (a ++ [k] ++ generics ++ [parameters, arrow, result.as .type])
    else postfixType g (← primaryType g) g.bound

/-- Members joined by one mark, nested to the left; the mark may lead. -/
def joinedTypes (k : Kind) (sign : String) (member : Reader Piece) : Reader Piece := do
  let first ← (do
    if (← peek).isMark sign then
      let lead ← mark sign
      return Piece.join k [lead, ← member]
    else member)
  let rec more (left : Piece) : Nat → Reader Piece
    | 0 => return left
    | n + 1 => do
      if !(← peek).isMark sign then return left
      let m ← mark sign
      more (Piece.join k [left, m, ← member]) n
  more first g.bound

/-- A type, conditional ones included. -/
def typeRule : Reader Piece := do
  let intersection := joinedTypes g .intersectionType "&" (operatorType g g.bound)
  let t ← joinedTypes g .unionType "|" intersection
  let next ← peek
  if next.isWord "extends" && !next.newline then
    (do
      let k ← keyword "extends"
      let bound ← g.type
      let question ← mark "?"
      let yes ← g.type
      let colon ← mark ":"
      return Piece.join .conditionalType
        [t.as .left, k, bound.as .right, question, yes.as .consequence, colon,
         (← g.type).as .alternative])
    <|> return t
  else return t

end SettingsHarvest.Syntax.Grammar
