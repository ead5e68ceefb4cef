import SettingsHarvest.Preferences
import SettingsHarvest.Project

/-! Configurations.

A `Configuration` is what the library works with. Preferences that passed their checks can still
hold values of the wrong kind in places that were not looked at; such a value is a fault for those
who ask for it, and nothing to anybody else. -/
namespace SettingsHarvest

structure Configuration where
  /-- How many plugins there are between two reports of progress. -/
  progressInterval : Nat
  /-- The directory of the plugins that both trees have, and that of a tree's own plugins. -/
  sharedFolder : Attempt String
  ownFolder : Attempt String
  aliases : Attempt (List (String × Attempt String))
  enums : EnumTable
  lookups : List LookupTable
  /-- Names of plugins, and what they go by in the other tree. -/
  renames : Preferences

namespace Configuration

def asPath (d : Datum) : Attempt String :=
  match d with
  | .text s => .ok s
  | d => .error (.pathNotText d.kind)

def asAliases (entries : Preferences) : Attempt (List (String × Attempt String)) :=
  entries.mapM fun (k, v) => match k with
    | .text s => .ok (s, asPath v)
    | k => .error (.noLength k.kind)

/-- Members of enumerations; names that are no texts are never asked for. -/
def asEnums (entries : Preferences) : EnumTable :=
  entries.filterMap fun (name, members) => name.text?.map fun name =>
    (name, (members.entries?.getD []).filterMap fun (m, v) =>
      match m.text?, v.scalar? with
      | some m, some v => some (m, v)
      | _, _ => none)

/-- A text in a lookup table: a fault if it is not given, and nothing if it is no text. -/
def lookupText? (table : Datum) (key : String) : Option (Attempt String) :=
  match table.get? key with
  | some d => d.text?.map .ok
  | none => some (.error (.missingKey key))

/-- The name of a constant in a lookup table. Under a name that is no text there is no constant, and
neither is there one under the empty name; what cannot be a key is a fault. -/
def lookupConstant (table : Datum) (key : String) : Attempt String :=
  match table.get? key with
  | some (.text s) => .ok s
  | some d => if d.isKey then .ok "" else .error (.notKey d.kind)
  | none => .error (.missingKey key)

def lookupTemplate (table : Datum) : Attempt String :=
  match table.get? "template" with
  | some (.text s) => .ok s
  | some d => .error (.noAttribute d.kind "format")
  | none => .error (.missingKey "template")

/-- A family of lookup tables; one whose helper is no text never applies. -/
def asLookup? (table : Datum) : Option LookupTable := do
  let helper ← lookupText? table "helper"
  return ⟨helper, lookupConstant table "base_constant", lookupConstant table "revision_constant",
    lookupTemplate table⟩

def ofPreferences (s : Preferences) : Configuration where
  progressInterval := match s.get "progress_interval" with
    | .integer n => n.toNat
    | _ => 0
  sharedFolder := asPath (s.get "vencord_plugins_dir")
  ownFolder := asPath (s.get "equicord_plugins_dir")
  aliases := asAliases ((s.get "path_aliases").entries?.getD [])
  enums := asEnums ((s.get "external_enums").entries?.getD [])
  lookups := match s.get "lookup_tables" with
    | .list tables => tables.filterMap asLookup?
    | _ => []
  renames := (s.get "plugin_renames").entries?.getD []

def standard : Configuration := ofPreferences Preferences.standard

/-- The project of a source tree. -/
def project (c : Configuration) (workingDirectory root : String) (readable : List SourceFile) :
    Project where
  workingDirectory := workingDirectory
  root := root
  aliases := c.aliases
  enums := Project.extendEnums Project.platformEnums c.enums
  lookups := c.lookups
  known := []
  readable := readable
  closed := []

end Configuration
end SettingsHarvest
