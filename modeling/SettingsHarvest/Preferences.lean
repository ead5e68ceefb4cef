import SettingsHarvest.Datum
import SettingsHarvest.FileTree
import SettingsHarvest.Yaml.Meaning

/-! What a reading can be told to do differently, as data.

Every key has a standard value, and a configuration file is merged over these, so that it only lists
what it changes. The file may say anything: keys that mean nothing are left out with a warning, and
`check` refuses what is plainly wrong. -/
namespace SettingsHarvest

/-- Keys with their data. -/
abbrev Preferences := List (Datum × Datum)

namespace Preferences

def ofTexts (entries : List (String × String)) : Preferences :=
  entries.map fun (k, v) => (.text k, .text v)

/-- The beginnings of import specifiers that the source trees use. -/
def standardAliases : List (String × String) :=
  [("@api", "src/api"), ("@components", "src/components"), ("@utils", "src/utils"),
   ("@shared", "src/shared"), ("@plugins", "src/plugins"),
   ("@equicordplugins", "src/equicordplugins"), ("@webpack", "src/webpack"),
   ("@vencord/discord-types", "packages/discord-types")]

/-- Plugins that go by another name in the other tree. -/
def standardRenames : List (String × String) := [("oneko", "CursorBuddy")]

/-- Themes for code are named by calls that stand for the address of a file. -/
def standardLookup : List (String × String) :=
  [("helper", "shikiRepoTheme"), ("base_constant", "SHIKI_REPO"),
   ("revision_constant", "SHIKI_REPO_COMMIT"),
   ("template", "https://raw.githubusercontent.com/\x7bbase\x7d/\x7brevision\x7d/packages/"
      ++ "tm-themes/themes/\x7bname\x7d.json")]

def standard : Preferences :=
  [(.text "concurrency", .integer 5), (.text "progress_interval", .integer 10),
   (.text "vencord_plugins_dir", .text "src/plugins"),
   (.text "equicord_plugins_dir", .text "src/equicordplugins"),
   (.text "path_aliases", .mapping (ofTexts standardAliases)),
   (.text "plugin_renames", .mapping (ofTexts standardRenames)),
   (.text "external_enums", .mapping []),
   (.text "lookup_tables", .list [.mapping (ofTexts standardLookup)])]

/-- The datum under a key; a null if there is none. -/
def get (s : Preferences) (key : String) : Datum := (Datum.lookup? (.text key) s).getD .null

/-- Preferences over others. -/
def withOverrides (base override : Preferences) : Preferences := Datum.mergeEntries base override

/-! ### Checks -/

def refuse {α : Type} (message : String) : Attempt α := .error (.configuration message)

/-- Refuses with a message that shows some data; it fails itself where one of them cannot be written. -/
def refuseShowing {α : Type} (shown : List Datum) (message : String) : Attempt α :=
  if shown.all Datum.isWritable then refuse message else .error (.overlongNumeral none)

/-- A number of one or more. -/
def isPositive : Datum → Bool
  | .integer n => 1 ≤ n
  | _ => false

def checkPositive (s : Preferences) (key : String) : Attempt Unit :=
  if isPositive (s.get key) then .ok ()
  else refuseShowing [s.get key] s!"'{key}' must be a positive integer, got {(s.get key).shown}"

def checkMapping (s : Preferences) (key : String) : Attempt Unit :=
  if (s.get key).entries?.isSome then .ok () else refuse s!"'{key}' must be a mapping"

/-- Whether a datum can be the value of a member of an enumeration. -/
def isMemberValue : Datum → Bool
  | .integer _ | .text _ => true
  | _ => false

def checkMember (enumeration : Datum) (member : Datum × Datum) : Attempt Unit :=
  if member.1.text?.isSome && isMemberValue member.2 then .ok ()
  else refuseShowing [enumeration, member.1, member.2] <|
    s!"external enum member {enumeration.plain}.{member.1.plain} must be a string or "
    ++ s!"integer, got {member.2.shown}"

def checkEnumeration (e : Datum × Datum) : Attempt Unit :=
  match e.2.entries? with
  | some members => members.forM (checkMember e.1)
  | none => refuseShowing [e.1, e.2] <|
    s!"external enum '{e.1.plain}' must map member names to values, got " ++ e.2.shown

/-- What every lookup table says, in the order messages name it. -/
def lookupKeys : List String := ["base_constant", "helper", "revision_constant", "template"]

def checkLookup (table : Datum) : Attempt Unit :=
  match table.entries? with
  | none => refuseShowing [table] s!"lookup table entry must be a mapping, got {table.shown}"
  | some entries =>
    match lookupKeys.filter fun k => (Datum.lookup? (.text k) entries).isNone with
    | [] => .ok ()
    | missing => refuse <| "lookup table entry is missing "
      ++ (Datum.list (missing.map .text)).shown

def checkLookups : Datum → Attempt Unit
  | .list tables => tables.forM checkLookup
  | _ => refuse "'lookup_tables' must be a list"

/-- Refuses settings that cannot be worked with; the first thing that is wrong counts. -/
def check (s : Preferences) : Attempt Unit := do
  ["concurrency", "progress_interval"].forM (checkPositive s)
  ["path_aliases", "plugin_renames", "external_enums"].forM (checkMapping s)
  ((s.get "external_enums").entries?.getD []).forM checkEnumeration
  checkLookups (s.get "lookup_tables")

/-! ### Files -/

/-- Whether a key is one that settings have. -/
def isKnown (key : Datum) : Bool := (Datum.lookup? key standard).isSome

/-- A text among texts sorted by characters. -/
def insertText (t : String) : List String → List String
  | [] => [t]
  | u :: rest => if t < u then t :: u :: rest else u :: insertText t rest

/-- The names of keys in one line, sorted. Keys of other kinds are neither sorted among texts nor
shown. -/
def keyLine (keys : List Datum) : Attempt String :=
  let others := keys.filter (·.text?.isNone)
  match others, keys.filterMap Datum.text? with
  | [], texts => .ok (", ".intercalate (texts.foldl (fun sorted t => insertText t sorted) []))
  | other :: _, [] => .error (.keyNotText 0 other.kind)
  | other :: rest, _ :: _ => .error (.keysNotOrdered "str" ((other :: rest).getLast?.getD other).kind)

/-- The settings of a document over the standard ones, and a warning about keys that are ignored. -/
def ofDatum (path : String) (d : Datum) : Attempt (Option String × Attempt Preferences) :=
  match d with
  | .null => .ok (none, standard.check.map fun _ => standard)
  | .mapping entries => do
    let unknown := (entries.map (·.1)).filter (!isKnown ·)
    let warning ← if unknown.isEmpty then pure none
      else pure (some ("Ignoring unknown config keys: " ++ (← keyLine unknown)))
    let merged := withOverrides standard (entries.filter fun e => isKnown e.1)
    return (warning, merged.check.map fun _ => merged)
  | d => refuse s!"Config file {path} must contain a mapping, got {d.kind}"

/-- Line ends of every kind as line feeds. -/
def unifyLines : List Char → List Char
  | '\r' :: '\n' :: r => '\n' :: unifyLines r
  | '\r' :: r => '\n' :: unifyLines r
  | c :: r => c :: unifyLines r
  | [] => []

/-- The settings in a file. -/
def load (t : FileTree) (path : String) : Attempt (Option String × Attempt Preferences) :=
  match t.read path with
  | .error f => refuse s!"Cannot read config file {path}: {f.message}"
  | .ok text => match Yaml.load (String.ofList (unifyLines text.toList)) with
    | .error .malformed => refuse s!"Invalid YAML in config file {path}"
    | .error (.fault f) => .error f
    | .ok d => ofDatum path d

end Preferences

end SettingsHarvest
