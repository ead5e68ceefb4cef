import SettingsHarvest.Text.Digit

/-! Strings of the Nix language.

A string stands between double quotes or, indented, between pairs of single quotes. Between double
quotes a backslash escapes. Between pairs of single quotes nothing is escaped but what would end the
string or open a gap: a pair of quotes gets a third one, a dollar sign gets a pair in front, and so
does a backslash at the end of a line. A single quote at the very end would run into the closing
pair, so a space is put behind it. -/
namespace SettingsHarvest.Nix

def quote : Char := '\x27'

/-! ### Double quotes -/

/-- Backslashes, double quotes and the openings of gaps, each behind a backslash. -/
def escape : List Char → List Char
  | [] => []
  | '$' :: '\x7b' :: rest => '\\' :: '$' :: '\x7b' :: escape rest
  | c :: rest => if c == '\\' || c == '"' then '\\' :: c :: escape rest else c :: escape rest

/-! ### Pairs of single quotes -/

/-- Every pair of quotes, from the left, with a third quote. -/
def tripleQuotes : List Char → List Char
  | '\x27' :: '\x27' :: rest => quote :: quote :: quote :: tripleQuotes rest
  | c :: rest => c :: tripleQuotes rest
  | [] => []

/-- Every dollar sign behind a pair of quotes. -/
def escapeDollars (s : List Char) : List Char :=
  s.flatMap fun c => if c == '$' then [quote, quote, '$'] else [c]

/-- Every backslash at the end of a line behind a pair of quotes. -/
def escapeLineEnds : List Char → List Char
  | '\\' :: '\n' :: rest => quote :: quote :: '\\' :: '\n' :: escapeLineEnds rest
  | c :: rest => c :: escapeLineEnds rest
  | [] => []

/-- Whether a text ends in one quote that is not set off by white space. -/
def endsInQuote (s : List Char) : Bool :=
  match s.reverse with
  | '\x27' :: before => match before with
    | [] => true
    | c :: _ => c != quote && !Text.isSpace c
  | _ => false

def escapeIndented (s : List Char) : List Char :=
  let escaped := escapeLineEnds (escapeDollars (tripleQuotes s))
  if endsInQuote escaped then escaped ++ [' '] else escaped

/-! ### Literals -/

/-- A string literal; one that holds a line break is indented. -/
def stringLiteral (indented : Bool) (s : List Char) : List Char :=
  if indented || s.contains '\n' then [quote, quote] ++ escapeIndented s ++ [quote, quote]
  else '"' :: escape s ++ ['"']

end SettingsHarvest.Nix
