import SettingsHarvest.Nix.Identifier
import SettingsHarvest.Nix.Text
import SettingsHarvest.Value

/-! Terms of the Nix language and how they are written.

Lists and sets stand one item to a line, a level deeper than their brackets. The attributes of a set
are sorted by name, `enable` before all others; an attribute that is null is not written at all. -/
namespace SettingsHarvest.Nix

inductive Term where
  /-- Text that is written as it is. -/
  | raw (text : String)
  | null
  | truth (b : Bool)
  | integer (n : Int)
  | decimal (x : Binary64)
  | text (s : String)
  | list (items : List Term)
  | set (attributes : List (String × Term))
  /-- Something the language has no literal for. -/
  | unknown
  deriving Inhabited

mutual
/-- A value as a term. -/
def termOf : Value → Term
  | .null => .null
  | .truth b => .truth b
  | .integer n => .integer n
  | .decimal x => .decimal x
  | .text s => .text s
  | .list items => .list (termsOf items)
  | .record fields => .set (attributesOf fields)

def termsOf : List Value → List Term
  | [] => []
  | v :: rest => termOf v :: termsOf rest

def attributesOf : List (String × Value) → List (String × Term)
  | [] => []
  | (k, v) :: rest => (k, termOf v) :: attributesOf rest
end

def Term.isNull : Term → Bool
  | null => true
  | _ => false

/-! ### Writing -/

/-- Space in front of a line. -/
def indentation (unit : String) (level : Nat) : String := String.join (List.replicate level unit)

/-- The name of the attribute that switches something on. -/
def enableName : String := "enable"

/-- Whether an attribute is written no later than another one. -/
def attributeLe (a b : String × String) : Bool :=
  a.1 == enableName || (b.1 != enableName && a.1 ≤ b.1)

def stringText (indented : Bool) (s : String) : String :=
  String.ofList (stringLiteral indented s.toList)

def identifierText (name : String) : String := String.ofList (identifier name.toList)

mutual
def Term.write (unit : String) (level : Nat) : Term → String
  | .raw text => text
  | .null | .unknown => "null"
  | .truth b => if b then "true" else "false"
  | .integer n => Value.intText n
  | .decimal x => x.decimalText
  | .text s => stringText false s
  | .list items =>
    if items.isEmpty then "[ ]"
    else
      "\n".intercalate ("[" :: writeItems unit (level + 1) items ++ [indentation unit level ++ "]"])
  | .set attributes =>
    let lines := (writeAttributes unit (level + 1) attributes).mergeSort attributeLe
    if lines.isEmpty then "\x7b \x7d"
    else
      "\n".intercalate ("\x7b" :: lines.map (·.2) ++ [indentation unit level ++ "\x7d"])

/-- The lines of the items of a list. -/
def writeItems (unit : String) (level : Nat) : List Term → List String
  | [] => []
  | t :: rest => (indentation unit level ++ t.write unit level) :: writeItems unit level rest

/-- The names of the attributes of a set with their lines. -/
def writeAttributes (unit : String) (level : Nat) : List (String × Term) → List (String × String)
  | [] => []
  | (name, t) :: rest =>
    let others := writeAttributes unit level rest
    if t.isNull then others
    else
      (name, indentation unit level ++ identifierText name ++ " = " ++ t.write unit level ++ ";")
        :: others
end

/-- The indentation of modules. -/
def standardUnit : String := "  "

end SettingsHarvest.Nix
