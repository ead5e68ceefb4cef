import SettingsHarvest.Value

/-! Settings, groups of settings and plugins.

A setting has a target type, and may have a default: none at all is something else than a default of
`Value.null`. Settings stand in a tree: an entry is a setting or a group with entries of its own, and
entries keep the order and the keys of the source. -/
namespace SettingsHarvest

/-- The types a setting can be given as an option. -/
inductive TargetType where
  | bool
  | str
  | int
  | float
  | nullableStr
  | attrs
  | listOfStr
  | listOfAttrs
  | enum
  deriving DecidableEq

namespace TargetType

def all : List TargetType :=
  [bool, str, int, float, nullableStr, attrs, listOfStr, listOfAttrs, enum]

def text : TargetType → String
  | bool => "types.bool"
  | str => "types.str"
  | int => "types.int"
  | float => "types.float"
  | nullableStr => "types.nullOr types.str"
  | attrs => "types.attrs"
  | listOfStr => "types.listOf types.str"
  | listOfAttrs => "types.listOf types.attrs"
  | enum => "types.enum"

def ofText? (t : String) : Option TargetType := all.find? fun x => x.text == t

def isList (t : TargetType) : Bool := t == listOfStr || t == listOfAttrs

end TargetType

structure Setting where
  name : String
  target : TargetType
  description : Option String
  default : Option Value
  /-- What an enumeration can be. -/
  choices : Option (List Value)
  /-- Labels under the texts of choices. -/
  labels : Option (List (String × String))
  example? : Option String
  hidden : Bool
  restartNeeded : Bool

/-- A setting, or a group with entries under their keys. -/
inductive Entry where
  | setting (s : Setting)
  | group (name : String) (entries : List (String × Entry))

abbrev Entries := List (String × Entry)

structure Plugin where
  name : String
  directory : String
  settings : Entries
  description : Option String
  isModified : Bool

/-! ### As records -/

/-- A field that is there when it has a value. -/
def fieldIfSome (key : String) (v : Option Value) : List (String × Value) :=
  match v with
  | some v => [(key, v)]
  | none => []

/-- A field that is there when it holds. -/
def fieldIfTrue (key : String) (b : Bool) : List (String × Value) :=
  if b then [(key, .truth true)] else []

/-- The fields of a setting in documents; empty lists of choices and labels are left out. -/
def Setting.fields (s : Setting) : List (String × Value) :=
  [("name", .text s.name), ("type", .text s.target.text)]
    ++ fieldIfSome "description" (s.description.map .text)
    ++ fieldIfSome "default" s.default
    ++ fieldIfSome "enumValues" ((s.choices.filter (!·.isEmpty)).map .list)
    ++ fieldIfSome "enumLabels" ((s.labels.filter (!·.isEmpty)).map fun labels =>
      .record (labels.map fun (k, v) => (k, .text v)))
    ++ fieldIfSome "example" (s.example?.map .text)
    ++ fieldIfTrue "hidden" s.hidden
    ++ [("restartNeeded", .truth s.restartNeeded)]

mutual
def Entry.toValue : Entry → Value
  | .setting s => .record s.fields
  | .group name entries => .record [("name", .text name), ("settings", .record (entryFields entries))]

def entryFields : List (String × Entry) → List (String × Value)
  | [] => []
  | (k, e) :: rest => (k, e.toValue) :: entryFields rest
end

def Plugin.toValue (p : Plugin) : Value :=
  .record <| [("name", .text p.name), ("directoryName", .text p.directory)]
    ++ fieldIfSome "description" (p.description.map .text)
    ++ fieldIfTrue "isModified" p.isModified
    ++ [("settings", .record (entryFields p.settings))]

end SettingsHarvest
