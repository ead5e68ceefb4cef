import SettingsHarvest.Text.Digit

/-! Attribute names.

Names of settings and plugins are written for people. `identifier` turns one into the name of an
attribute: what stands in parentheses is dropped, characters that cannot be in a name become
underscores, words are joined in camel case, and a name that could not start an attribute gets an
underscore in front. A name with two capitals in a row and no separators is taken to be spelled as it
should be. Keywords come back quoted. -/
namespace SettingsHarvest.Nix

def isLower (c : Char) : Bool := 'a' ≤ c && c ≤ 'z'

def isUpper (c : Char) : Bool := 'A' ≤ c && c ≤ 'Z'

def isNumeral (c : Char) : Bool := '0' ≤ c && c ≤ '9'

def isWordChar (c : Char) : Bool := isLower c || isUpper c || isNumeral c

/-! ### Camel case -/

/-- A space between a small letter or digit and a capital behind it. -/
def splitBeforeCapital : List Char → List Char
  | a :: b :: rest =>
    if (isLower a || isNumeral a) && isUpper b then a :: ' ' :: splitBeforeCapital (b :: rest)
    else a :: splitBeforeCapital (b :: rest)
  | s => s

/-- A space in front of the last of several capitals when a small letter follows it. -/
def splitAcronym : List Char → List Char
  | a :: b :: c :: rest =>
    if isUpper a && isUpper b && isLower c then a :: ' ' :: splitAcronym (b :: c :: rest)
    else a :: splitAcronym (b :: c :: rest)
  | s => s

/-- The words of a text: runs of letters and digits, cut where the case changes. -/
def words (s : List Char) : List (List Char) :=
  ((splitAcronym (splitBeforeCapital s)).splitOnP (!isWordChar ·)).filter (!·.isEmpty)

/-- A word behind another one: capitalized, or set off by an underscore if it starts with a digit. -/
def laterWord : List Char → List Char
  | [] => []
  | c :: rest =>
    if isNumeral c then '_' :: (c :: rest).map Char.toLower
    else c.toUpper :: rest.map Char.toLower

def camelCase (s : List Char) : List Char :=
  match words s with
  | [] => []
  | first :: rest => first.map Char.toLower ++ (rest.map laterWord).flatten

/-! ### Names -/

/-- Where a reading of a name stands: in plain text, with the white space last seen; in parentheses;
or right behind them. -/
inductive Reading where
  | plain (blank : List Char)
  | inside
  | behind

/-- A text without its parentheses, their contents and the white space around them. A parenthesis that
is never closed is plain text. -/
def dropParentheses : Reading → List Char → List Char
  | .plain blank, [] => blank
  | .inside, [] | .behind, [] => []
  | .inside, c :: rest => dropParentheses (if c == ')' then .behind else .inside) rest
  | .behind, c :: rest =>
    if Text.isSpace c then dropParentheses .behind rest
    else if c == '(' && rest.contains ')' then dropParentheses .inside rest
    else c :: dropParentheses (.plain []) rest
  | .plain blank, c :: rest =>
    if Text.isSpace c then dropParentheses (.plain (blank ++ [c])) rest
    else if c == '(' && rest.contains ')' then dropParentheses .inside rest
    else blank ++ c :: dropParentheses (.plain []) rest

def isNameChar (c : Char) : Bool := isWordChar c || c == '_' || c == '\x27' || c == '-'

/-- Every run of underscores as a single one. -/
def squeeze : List Char → List Char
  | '_' :: '_' :: rest => squeeze ('_' :: rest)
  | c :: rest => c :: squeeze rest
  | [] => []

/-- A text without the underscores at its ends. -/
def trimUnderscores (s : List Char) : List Char :=
  ((s.dropWhile (· == '_')).reverse.dropWhile (· == '_')).reverse

/-- Whether a name can start an attribute. -/
def startsName (s : List Char) : Bool := s.head?.any fun c => isLower c || isUpper c || c == '_'

/-- Whether two capitals stand side by side. -/
def hasAcronym : List Char → Bool
  | a :: b :: rest => (isUpper a && isUpper b) || hasAcronym (b :: rest)
  | _ => false

def keywords : List String :=
  ["assert", "else", "if", "in", "inherit", "let", "or", "rec", "then", "with"]

/-- The attribute name for a name. -/
def identifier (name : List Char) : List Char :=
  let plain := (dropParentheses (.plain []) name).map fun c => if isNameChar c then c else '_'
  let body := squeeze (trimUnderscores plain)
  let spelled := if hasAcronym body && !body.contains '_' then body else camelCase body
  let leads := name.head? == some '_' && name.getLast? != some '_'
  if leads && startsName spelled then '_' :: spelled
  else
    let safe := if startsName body && startsName spelled then spelled else '_' :: spelled
    if keywords.contains (String.ofList safe) then '"' :: safe ++ ['"'] else safe

end SettingsHarvest.Nix
