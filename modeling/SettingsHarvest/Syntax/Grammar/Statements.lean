import SettingsHarvest.Syntax.Grammar.Expressions

/-! Statements and declarations.

Most words that start a declaration can also be names (`type`, `declare`, `namespace`, …), so a
declaration is tried first and an expression statement is what remains. A namespace is an expression
statement that holds an internal module. -/
namespace SettingsHarvest.Syntax.Grammar
open Reader

variable (g : Grammar)

def blockRule : Reader Piece := do
  let opening ← mark "\x7b"
  let items ← itemsUntil (·.isMark "\x7d") (single (g.read .statement)) g.bound
  return Piece.join .statementBlock (opening :: items ++ [← mark "\x7d"])

/-- One item, then more behind commas. -/
def commaSeparated (item : Reader Piece) : Reader (List Piece) := do
  let first ← item
  let rec more : Nat → Reader (List Piece)
    | 0 => return []
    | n + 1 => do
      if !(← peek).isMark "," then return []
      let comma ← mark ","
      let next ← item
      return comma :: next :: (← more n)
  return first :: (← more g.bound)

/-! ### Variables -/

def variableDeclarator (allowIn : Bool) : Reader Piece := do
  let target := (← g.read .pattern).as .name
  let sign ← mark? "!"
  let ascription ← typeAscription? g
  let value ← ifMark "=" (do
    let sign ← mark "="
    return [sign, (← g.read (.expression allowIn true)).as .value])
  return Piece.join .variableDeclarator ([target] ++ sign ++ ascription ++ value)

def declarationKind (word : String) : Kind :=
  if word == "var" then .variableDeclaration else .lexicalDeclaration

/-- `const`, `let` or `var` with their declarators, without the end of the statement. -/
def variableHead (allowIn : Bool) : Reader (Kind × List Piece) := do
  let t ← peek
  require (t.isAnyWord ["const", "let", "var"])
  let next ← peekSecond
  require (next.shape == .word || next.isMark "\x7b" || next.isMark "[")
  let k := ((← take).mark).as .kind
  let items ← commaSeparated g (variableDeclarator g allowIn)
  return (declarationKind t.text, k :: items)

def variableStatement : Reader Piece := do
  let (kind, pieces) ← variableHead g true
  return Piece.join kind (pieces ++ (← statementEnd))

/-! ### Enums, interfaces, aliases, modules -/

def enumMember : Reader Piece := do
  let n := (← propertyName g).as .name
  if (← peek).isMark "=" then
    let sign ← mark "="
    return Piece.join .enumAssignment [n, sign, (← g.expression).as .value]
  else return n

def enumDeclaration : Reader Piece := do
  let const ← keyword? "const"
  let k ← keyword "enum"
  let n := (← name .identifier).as .name
  let body := Piece.join .enumBody (← commaList g.bound "\x7b" "\x7d" (single (enumMember g)))
  return Piece.join .enumDeclaration (const ++ [k, n, body.as .body])

def interfaceDeclaration : Reader Piece := do
  let k ← keyword "interface"
  let n := (← name .typeIdentifier).as .name
  let generics ← typeParameters? g
  let bases ← ifWord "extends" (do
    let e ← keyword "extends"
    return [Piece.join .extendsTypeClause (e :: (← commaSeparated g g.type))])
  let body := (← typeMembers g .interfaceBody).as .body
  return Piece.join .interfaceDeclaration ([k, n] ++ generics ++ bases ++ [body])

def typeAlias : Reader Piece := do
  let k ← keyword "type"
  let n := (← name .typeIdentifier).as .name
  let generics ← typeParameters? g
  let sign ← mark "="
  let t := (← g.type).as .value
  return Piece.join .typeAliasDeclaration ([k, n] ++ generics ++ [sign, t] ++ (← statementEnd))

/-- `namespace N { … }` or `module N { … }`. -/
def moduleDeclaration : Reader Piece := do
  let t ← peek
  require (t.isAnyWord ["namespace", "module"] && !(← peekSecond).newline)
  let k := (← take).mark
  let n ← (quoted <|> (do nestedName (← name .identifier) g.bound))
  let kind := if t.text == "namespace" then Kind.internalModule else .moduleDeclaration
  let body ← (do
    if (← peek).isMark "\x7b" then return [(← g.read .block).as .body] else return [])
  return Piece.join kind ([k, n.as .name] ++ body)

/-! ### Functions and classes -/

/-- A function declaration, or its signature where the body is left out. -/
def functionDeclaration : Reader Piece := do
  let async ← keyword? "async"
  let k ← keyword "function"
  let star ← mark? "*"
  let n := (← name .identifier).as .name
  let head ← signatureTail g
  if (← peek).isMark "\x7b" then
    let kind := if star.isEmpty then Kind.functionDeclaration else .generatorFunctionDeclaration
    return Piece.join kind
      (async ++ [k] ++ star ++ [n] ++ head ++ [(← g.read .block).as .body])
  else
    return Piece.join .functionSignature
      (async ++ [k] ++ star ++ [n] ++ head ++ (← statementEnd))

/-- A class with a name; one without a name is an expression. -/
def classDeclaration (marks : List Piece) : Reader Piece := do
  if (← peek).isWord "abstract" then
    let a ← keyword "abstract"
    require ((← peek).isWord "class")
    classRest g .abstractClassDeclaration (marks ++ [a])
  else
    require ((← peek).isWord "class")
    let declared ← classRest g .classDeclaration marks
    require (declared.node.part? .name).isSome
    return declared

/-- The declarations that can stand behind `export` and `declare`. -/
def declaration : Reader Piece := do
  let t ← peek
  let next ← peekSecond
  if t.isMark "@" then
    let marks ← decorators g
    classDeclaration g marks
  else if t.isWord "const" && next.isWord "enum" then enumDeclaration g
  else if t.isAnyWord ["const", "let", "var"] then variableStatement g
  else if t.isWord "enum" then enumDeclaration g
  else if t.isWord "function" || (t.isWord "async" && next.isWord "function" && !next.newline) then
    functionDeclaration g
  else if t.isWord "class" || (t.isWord "abstract" && next.isWord "class") then
    classDeclaration g []
  else if t.isWord "interface" && next.shape == .word then interfaceDeclaration g
  else if t.isWord "type" && next.shape == .word && !next.newline then typeAlias g
  else if t.isAnyWord ["namespace", "module"] && (next.shape == .word || next.shape == .quoted) then
    moduleDeclaration g
  else failure

def ambientDeclaration : Reader Piece := do
  let k ← keyword "declare"
  require (!(← peek).newline)
  if (← peek).isWord "global" then
    let global ← keyword "global"
    return Piece.join .ambientDeclaration [k, global, ← g.read .block]
  else return Piece.join .ambientDeclaration [k, ← declaration g]

/-! ### Imports and exports -/

def fromClause : Reader (List Piece) := do
  let k ← keyword "from"
  return [k, (← quoted).as .source]

/-- `with { type: "json" }` behind a module name. -/
def importAttribute? : Reader (List Piece) :=
  orNothing (do
    let t ← peek
    require (t.isAnyWord ["with", "assert"] && !t.newline)
    let k := (← take).mark
    return [Piece.join .importAttribute [k, ← objectLiteral g]])

/-- A name in an import or export list, which may be any word or a quoted text. -/
def exportedName : Reader Piece := quoted <|> anyWord .identifier

/-- `a`, `a as b`, `type a`, `type a as b`. -/
def specifier (k : Kind) : Reader Piece := do
  let front ← orNothing (do
    let t ← peek
    let next ← peekSecond
    require (t.isAnyWord ["type", "typeof"])
    require (next.shape == .quoted || (next.shape == .word && !next.isWord "as"))
    return [(← take).mark])
  let n := (← exportedName).as .name
  if (← peek).isWord "as" then
    let as ← keyword "as"
    return Piece.join k (front ++ [n, as, (← exportedName).as .rename])
  else return Piece.join k (front ++ [n])

def namedImports : Reader Piece := do
  return Piece.join .namedImports
    (← commaList g.bound "\x7b" "\x7d" (single (specifier .importSpecifier)))

def namespaceImport : Reader Piece := do
  let star ← mark "*"
  let as ← keyword "as"
  return Piece.join .namespaceImport [star, as, ← anyWord .identifier]

def importClause : Reader Piece := do
  let t ← peek
  if t.isMark "*" then return Piece.join .importClause [← namespaceImport]
  else if t.isMark "\x7b" then return Piece.join .importClause [← namedImports g]
  else
    let n ← name .identifier
    if (← peek).isMark "," then
      let comma ← mark ","
      let more ← (namespaceImport <|> namedImports g)
      return Piece.join .importClause [n, comma, more]
    else return Piece.join .importClause [n]

def importStatement : Reader Piece := do
  let k ← keyword "import"
  let next ← peek
  require (!next.isMark "(" && !next.isMark ".")
  if next.shape == .quoted then
    let source := (← quoted).as .source
    let attrs ← importAttribute? g
    return Piece.join .importStatement ([k, source] ++ attrs ++ (← statementEnd))
  (do
    let clause ← importClause g
    let source ← fromClause
    let attrs ← importAttribute? g
    return Piece.join .importStatement ([k, clause] ++ source ++ attrs ++ (← statementEnd)))
  <|> (do
    let modifier ← (keyword "type" <|> keyword "typeof")
    let clause ← importClause g
    let source ← fromClause
    let attrs ← importAttribute? g
    return Piece.join .importStatement
      ([k, modifier, clause] ++ source ++ attrs ++ (← statementEnd)))
  <|> (do
    let modifier ← keyword? "type"
    let n ← name .identifier
    let sign ← mark "="
    let r ← keyword "require"
    let opening ← mark "("
    let source := (← quoted).as .source
    let closing ← mark ")"
    return Piece.join .importStatement
      ([k] ++ modifier ++ [Piece.join .importRequireClause [n, sign, r, opening, source, closing]]
        ++ (← statementEnd)))
  <|> (do
    let n ← name .identifier
    let sign ← mark "="
    let path ← nestedName (← name .identifier) g.bound
    return Piece.join .importAlias ([k, n, sign, path] ++ (← statementEnd)))

def exportClause : Reader Piece := do
  return Piece.join .exportClause
    (← commaList g.bound "\x7b" "\x7d" (single (specifier .exportSpecifier)))

def exportStatement : Reader Piece := do
  let marks ← decorators g
  let k ← keyword "export"
  let t ← peek
  let next ← peekSecond
  if t.isMark "*" then
    let star ← mark "*"
    let head ← (do
      if (← peek).isWord "as" then
        let as ← keyword "as"
        return [Piece.join .namespaceExport [star, as, ← exportedName]]
      else return [star])
    let source ← fromClause
    let attrs ← importAttribute? g
    return Piece.join .exportStatement ([k] ++ head ++ source ++ attrs ++ (← statementEnd))
  else if t.isMark "\x7b" || (t.isWord "type" && next.isMark "\x7b") then
    let type ← keyword? "type"
    let clause ← exportClause g
    let source ← ifWord "from" fromClause
    let attrs ← importAttribute? g
    return Piece.join .exportStatement
      ([k] ++ type ++ [clause] ++ source ++ attrs ++ (← statementEnd))
  else if t.isMark "=" then
    let sign ← mark "="
    return Piece.join .exportStatement ([k, sign, ← g.expression] ++ (← statementEnd))
  else if t.isWord "as" && next.isWord "namespace" then
    let as ← keyword "as"
    let n ← keyword "namespace"
    return Piece.join .exportStatement ([k, as, n, ← name .identifier] ++ (← statementEnd))
  else if t.isWord "default" then
    let d ← keyword "default"
    (do
      let head ← peek
      require (head.isAnyWord ["function", "async", "class", "abstract", "interface", "enum"]
        || head.isMark "@")
      let inner ← declaration g
      return Piece.join .exportStatement (marks ++ [k, d, inner.as .declaration]))
    <|> (do
      let value := (← g.expression).as .value
      return Piece.join .exportStatement (marks ++ [k, d, value] ++ (← statementEnd)))
  else if t.isWord "import" then
    let i ← importStatement g
    return Piece.join .exportStatement [k, i]
  else if t.isWord "declare" then
    let inner ← ambientDeclaration g
    return Piece.join .exportStatement (marks ++ [k, inner.as .declaration])
  else
    let inner ← declaration g
    return Piece.join .exportStatement (marks ++ [k, inner.as .declaration])

/-! ### Control -/

/-- An expression in parentheses that steers a statement. -/
def steering : Reader Piece := do
  let opening ← mark "("
  let e ← g.read (.sequence true)
  return Piece.join .parenthesizedExpression [opening, e, ← mark ")"]

def ifStatement : Reader Piece := do
  let k ← keyword "if"
  let condition := (← steering g).as .condition
  let yes := (← g.read .statement).as .consequence
  let no ← ifWord "else" (do
    let e ← keyword "else"
    return [(Piece.join .elseClause [e, ← g.read .statement]).as .alternative])
  return Piece.join .ifStatement ([k, condition, yes] ++ no)

/-- The header of a loop over the keys or elements of something. -/
def loopOverHead : Reader (List Piece) := do
  let opening ← mark "("
  let target ← ((do
      let t ← peek
      require (t.isAnyWord ["const", "let", "var"])
      let k := ((← take).mark).as .kind
      return [k, (← g.read .pattern).as .left])
    <|> (do
      let c ← cursor
      if c.token.isMark "[" || c.token.isMark "\x7b" then return [(← g.read .pattern).as .left]
      else return [(← g.read .unary).as .left]))
  let t ← peek
  require (t.isAnyWord ["in", "of"])
  let operator := ((← take).mark).as .operator
  let subject := (← g.read (.sequence true)).as .right
  return opening :: target ++ [operator, subject, ← mark ")"]

def forStatement : Reader Piece := do
  let k ← keyword "for"
  let await ← keyword? "await"
  (do
    let head ← loopOverHead g
    let body := (← g.read .statement).as .body
    return Piece.join .forInStatement ([k] ++ await ++ head ++ [body]))
  <|> (do
    let opening ← mark "("
    let start ← (do
      let t ← peek
      if t.isMark ";" then return [Piece.join .emptyStatement [← mark ";"]]
      else if t.isAnyWord ["const", "let", "var"] then
        let (kind, pieces) ← variableHead g false
        return [Piece.join kind (pieces ++ [← mark ";"])]
      else return [Piece.join .expressionStatement [← g.read (.sequence false), ← mark ";"]])
    let condition ← (do
      if (← peek).isMark ";" then return [Piece.join .emptyStatement [← mark ";"]]
      else return [Piece.join .expressionStatement [← g.read (.sequence true), ← mark ";"]])
    let step ← (do
      if (← peek).isMark ")" then return [] else return [← g.read (.sequence true)])
    let closing ← mark ")"
    let body := (← g.read .statement).as .body
    return Piece.join .forStatement ([k, opening] ++ start ++ condition ++ step ++ [closing, body]))

def switchCase : Reader Piece := do
  let t ← peek
  let head ← (do
    if t.isWord "default" then return [← keyword "default", ← mark ":"]
    else
      let k ← keyword "case"
      let value := (← g.read (.sequence true)).as .value
      return [k, value, ← mark ":"])
  let body ← itemsUntil (fun t => t.isMark "\x7d" || t.isAnyWord ["case", "default"])
    (do return [(← g.read .statement).as .body]) g.bound
  return Piece.join (if t.isWord "default" then .switchDefault else .switchCase) (head ++ body)

def switchStatement : Reader Piece := do
  let k ← keyword "switch"
  let value := (← steering g).as .value
  let opening ← mark "\x7b"
  let cases ← itemsUntil (·.isMark "\x7d") (single (switchCase g)) g.bound
  let body := Piece.join .switchBody (opening :: cases ++ [← mark "\x7d"])
  return Piece.join .switchStatement [k, value, body.as .body]

def tryStatement : Reader Piece := do
  let k ← keyword "try"
  let body := (← g.read .block).as .body
  let handler ← ifWord "catch" (do
    let c ← keyword "catch"
    let bound ← ifMark "(" (do
      let opening ← mark "("
      let p := (← g.read .pattern).as .parameter
      let ascription ← typeAscription? g
      return [opening, p] ++ ascription ++ [← mark ")"])
    return [Piece.join .catchClause ([c] ++ bound ++ [(← g.read .block).as .body])])
  let finalizer ← ifWord "finally" (do
    let f ← keyword "finally"
    return [Piece.join .finallyClause [f, (← g.read .block).as .body]])
  return Piece.join .tryStatement ([k, body] ++ handler ++ finalizer)

/-- `return`, `throw`: a keyword with an expression on the same line. -/
def leavingStatement (word : String) (k : Kind) : Reader Piece := do
  let w ← keyword word
  let t ← peek
  let value ← (do
    if t.newline || t.isMark ";" || t.isMark "\x7d" || t.shape == .finish then return []
    else return [← g.read (.sequence true)])
  return Piece.join k ([w] ++ value ++ (← statementEnd))

def jumpStatement (word : String) (k : Kind) : Reader Piece := do
  let w ← keyword word
  let t ← peek
  let label ← (do
    if t.shape == .word && !t.newline then
      return [((← take).leaf .statementIdentifier).as .label]
    else return [])
  return Piece.join k ([w] ++ label ++ (← statementEnd))

def expressionStatement : Reader Piece := do
  let e ← g.read (.sequence true)
  return Piece.join .expressionStatement (e :: (← statementEnd))

/-- Declarations that some first word announces, tried before expressions. -/
def announced : Reader Piece := do
  let t ← peek
  let next ← peekSecond
  if t.isWord "declare" && next.shape == .word && !next.newline then ambientDeclaration g
  else if t.isAnyWord ["namespace", "module"] && !next.newline then
    let m ← moduleDeclaration g
    if m.hasKind .internalModule then return Piece.join .expressionStatement [m] else return m
  else if t.isMark "@" then
    let c ← cursor
    (do
      let marks ← decorators g
      classDeclaration g marks) <|> (do
      set c
      exportStatement g)
  else declaration g

def statementRule : Reader Piece := do
  let t ← peek
  match t.shape with
  | .finish => failure
  | .mark =>
    if t.text == "\x7b" then g.read .block
    else if t.text == ";" then return Piece.join .emptyStatement [← mark ";"]
    else if t.text == "@" then announced g
    else expressionStatement g
  | .word =>
    match t.text with
    | "if" => ifStatement g
    | "for" => forStatement g
    | "while" => do
      let k ← keyword "while"
      let condition := (← steering g).as .condition
      return Piece.join .whileStatement [k, condition, (← g.read .statement).as .body]
    | "do" => do
      let k ← keyword "do"
      let body := (← g.read .statement).as .body
      let w ← keyword "while"
      let condition := (← steering g).as .condition
      return Piece.join .doStatement ([k, body, w, condition] ++ (← mark? ";"))
    | "switch" => switchStatement g
    | "try" => tryStatement g
    | "return" => leavingStatement g "return" .returnStatement
    | "throw" => leavingStatement g "throw" .throwStatement
    | "break" => jumpStatement "break" .breakStatement
    | "continue" => jumpStatement "continue" .continueStatement
    | "debugger" => do
      let k ← keyword "debugger"
      return Piece.join .debuggerStatement (k :: (← statementEnd))
    | "with" => do
      let k ← keyword "with"
      let object := (← steering g).as .object
      return Piece.join .withStatement [k, object, (← g.read .statement).as .body]
    | "import" => importStatement g <|> expressionStatement g
    | "export" => exportStatement g
    | _ => do
      let next ← peekSecond
      if next.isMark ":" && !reservedWords.contains t.text then
        let n := ((← take).leaf .statementIdentifier).as .label
        let colon ← mark ":"
        return Piece.join .labeledStatement [n, colon, (← g.read .statement).as .body]
      else announced g <|> expressionStatement g
  | _ => expressionStatement g

end SettingsHarvest.Syntax.Grammar
