import SettingsHarvest.Syntax.Grammar.Statements

/-! Whole programs.

`read` ties the knot of the grammar: a rule reads the phrases inside it with one level less than it
was given itself, and the levels are taken from the length of the text, so no text runs out of them.
`parse` reads statements to the end of the text. It always answers a tree: a token no statement can
start with becomes an error node of its own and reading goes on behind it. -/
namespace SettingsHarvest.Syntax

/-- The rule for a goal, given the readers for the phrases inside. -/
def Grammar.rule (g : Grammar) : Goal → Reader Piece
  | .sequence allowIn => Grammar.sequenceRule g allowIn
  | .expression allowIn typedArrow => Grammar.expressionRule g allowIn typedArrow
  | .operand level allowIn => Grammar.operandRule g level allowIn true
  | .unary => Grammar.unaryRule g true g.bound
  | .pattern => Grammar.patternRule g
  | .parameters => Grammar.parametersRule g
  | .type => Grammar.typeRule g
  | .typeArguments => Grammar.typeArguments g
  | .typeParameters => Grammar.typeParameters g
  | .block => Grammar.blockRule g
  | .statement => Grammar.statementRule g
  | .markup => Grammar.markupRule g

/-- A phrase, with a bound on how deep phrases nest. -/
def read (markup : Bool) (bound : Nat) : Nat → Goal → Reader Piece
  | 0, _ => failure
  | depth + 1, goal => Grammar.rule ⟨markup, bound, read markup bound depth⟩ goal

/-- The two dialects: with type assertions in angle brackets, or with markup elements. -/
inductive Dialect where
  | plain | markup
  deriving DecidableEq

/-- Statements up to the end of the text. -/
def readStatements (statement : Reader Piece) : Nat → Cursor → List Piece
  | 0, _ => []
  | n + 1, c =>
    if c.token.shape == .finish then
      c.token.comments.map fun comment => ⟨[], comment⟩
    else match statement.run c with
      | some (p, rest) => p :: readStatements statement n rest
      | none => c.token.leaf .error :: readStatements statement n c.next

private def hashBang : List Char → List Piece × List Char
  | '#' :: '!' :: r =>
    let line := r.takeWhile (!isLineEnd ·)
    ([⟨[], .leaf .hashBangLine none "" (String.ofList ('#' :: '!' :: line))⟩], r.drop line.length)
  | cs => ([], cs)

/-- The tree of a source text. -/
def parse (d : Dialect) (source : String) : Node :=
  let cs := source.toList
  let bound := cs.length + 1
  let (first, rest) := hashBang cs
  let statements := readStatements (read (d == .markup) bound (4 * bound + 16) .statement)
    bound (Cursor.at rest)
  .tree .program none ((first ++ statements).flatMap fun p => p.comments ++ [p.node])

mutual
/-- Whether some part of a tree could not be read. -/
def Node.hasError : Node → Bool
  | .token .. => false
  | .leaf k .. => k == .error
  | .tree _ _ parts => Node.anyError parts

def Node.anyError : List Node → Bool
  | [] => false
  | n :: rest => n.hasError || Node.anyError rest
end

end SettingsHarvest.Syntax
