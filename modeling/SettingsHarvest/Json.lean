import SettingsHarvest.Value

/-! Values as JSON text.

Every item and every entry has a line of its own, two columns further right than what it belongs to;
an empty list or record is written in two characters. -/
namespace SettingsHarvest.Json

/-- One character of a string. -/
def stringChar (c : Char) : List Char :=
  if c == '"' || c == '\\' then ['\\', c]
  else if c == '\n' then ['\\', 'n']
  else if c == '\r' then ['\\', 'r']
  else if c == '\t' then ['\\', 't']
  else if c.toNat == 0x8 then ['\\', 'b']
  else if c.toNat == 0xc then ['\\', 'f']
  else if c.toNat < 0x20 then '\\' :: 'u' :: Text.hex 4 c.toNat
  else [c]

def stringText (s : String) : String :=
  String.ofList ('"' :: s.toList.flatMap stringChar ++ ['"'])

def decimalText : Binary64 → String
  | .infinite negative => if negative then "-Infinity" else "Infinity"
  | .nan => "NaN"
  | x => x.decimalText

/-- A line end, and the spaces in front of the next line. -/
def newLine (depth : Nat) : String := String.ofList ('\n' :: List.replicate (2 * depth) ' ')

mutual
def text (depth : Nat) : Value → String
  | .null => "null"
  | .truth b => if b then "true" else "false"
  | .integer n => Value.intText n
  | .decimal x => decimalText x
  | .text s => stringText s
  | .list [] => "[]"
  | .list (v :: rest) =>
    "[" ++ newLine (depth + 1) ++ text (depth + 1) v ++ moreItems (depth + 1) rest
      ++ newLine depth ++ "]"
  | .record [] => "\x7b\x7d"
  | .record ((k, v) :: rest) =>
    "\x7b" ++ newLine (depth + 1) ++ stringText k ++ ": " ++ text (depth + 1) v
      ++ moreFields (depth + 1) rest ++ newLine depth ++ "\x7d"

def moreItems (depth : Nat) : List Value → String
  | [] => ""
  | v :: rest => "," ++ newLine depth ++ text depth v ++ moreItems depth rest

def moreFields (depth : Nat) : List (String × Value) → String
  | [] => ""
  | (k, v) :: rest =>
    "," ++ newLine depth ++ stringText k ++ ": " ++ text depth v ++ moreFields depth rest
end

/-- A value as a document. -/
def write (v : Value) : String := text 0 v

end SettingsHarvest.Json
