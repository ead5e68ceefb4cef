import SettingsHarvest.Fault
import SettingsHarvest.Nix.Term
import SettingsHarvest.Setting
import SettingsHarvest.Text.Search

/-! Modules with the options of plugins.

A setting becomes an option, a group a set of options, and a plugin a set of options with one more
that enables it, unless it brings its own. Two names can come out as the same attribute; then the
first one keeps it, and the `Collision` is reported. -/
namespace SettingsHarvest.Nix

/-- Names that meet in one attribute. -/
structure Collision where
  name : String
  /-- The name that keeps the attribute. -/
  owner : String
  key : String

def Collision.message (c : Collision) : String :=
  s!"'{c.name}' and '{c.owner}' both map to Nix attribute {c.key}; keeping '{c.owner}'"

/-! ### Options -/

/-- Choices that are integers, with the labels they have. -/
def choiceLegend (choices : List Value) (labels : List (String × String)) : List String :=
  choices.filterMap fun v => match v with
    | .integer n => (labels.lookup (Value.intText n)).map fun label =>
      Value.intText n ++ " = " ++ label
    | _ => none

def isInteger : Value → Bool
  | .integer _ => true
  | _ => false

/-- A description with a legend where all choices are integers. -/
def describe (s : Setting) (description : String) : String :=
  let choices := s.choices.getD []
  let legend := choiceLegend choices (s.labels.getD [])
  if s.target == .enum && choices.all isInteger && !legend.isEmpty then
    description ++ "\n\nValues: " ++ ", ".intercalate legend
  else description

/-- A value as a term, unless an integer in it has too many digits. -/
def writableTerm (v : Value) : Except Fault Term :=
  if v.isWritable then .ok (termOf v) else .error (.overlongNumeral none)

/-- Choices as a type lists them. -/
def choiceTexts (choices : List Value) : Except Fault (List String) :=
  choices.mapM fun v => do return (← writableTerm v).write standardUnit 0

/-- The text of an enumeration of choices. -/
def enumText (texts : List String) : String :=
  TargetType.enum.text ++ " [ " ++ " ".intercalate texts ++ " ]"

/-- The type of an option. -/
def optionType (s : Setting) : Except Fault Term :=
  match s.target with
  | .enum => do return .raw (enumText (← choiceTexts (s.choices.getD [])))
  | t => .ok (.raw t.text)

/-- Whether a text is a decimal integer, a line break behind it allowed. -/
def isIntegerText (s : String) : Bool :=
  let digits := match s.toList with
    | '-' :: rest => rest
    | cs => cs
  let digits := if digits.getLast? == some '\n' then digits.dropLast else digits
  !digits.isEmpty && digits.all fun c => (Text.decimalValue? c).isSome

/-- An integer with one place behind the point, as floating point holds it. -/
def withOnePlace (n : Int) : Except Fault String :=
  match (Binary64.ofInt n).toInt? with
  | some m => .ok (Value.intText m ++ ".0")
  | none => .error .integerTooLarge

/-- The default of an option. A number in a text is written as a number, and an integer as a
floating-point number, where the type asks for it. -/
def optionDefault (t : TargetType) (v : Value) : Except Fault Term :=
  match t, v with
  | _, .null => .ok (.raw "null")
  | .float, .integer n => do return .raw (← withOnePlace n)
  | .int, .text s => .ok (if isIntegerText s then .raw s else .text s)
  | _, v => writableTerm v

/-- Whether an example is worth showing: it is no part of the description. -/
def showsExample (s : Setting) (e : String) : Bool :=
  !e.isEmpty && !(s.description.any fun d => !d.isEmpty && Text.occursIn e.toList d.toList)

/-- The attributes of an option. -/
def optionAttributes (s : Setting) : Except Fault (List (String × Term)) := do
  let type ← optionType s
  let default ← match s.default with
    | some v => do pure [("default", ← optionDefault s.target v)]
    | none => pure []
  let description := match s.description with
    | some d => if d.isEmpty then [] else
      [("description", Term.raw (stringText true (describe s d)))]
    | none => []
  let example? := match s.example? with
    | some e => if showsExample s e then [("example", Term.text e)] else []
    | none => []
  return [("type", type)] ++ default ++ description ++ example?

/-! ### Categories -/

/-- What the descriptions of plugins end with, by category. -/
def categoryLabels : List (String × String) :=
  [("shared", " (Shared between Vencord and Equicord)"), ("vencord", " (Vencord-only)"),
   ("equicord", " (Equicord-only)")]

def categoryLabel (category : String) : Except Fault String :=
  match categoryLabels.lookup category with
  | some label => .ok label
  | none => .error (.missingKey category)

/-- The option that enables something. -/
def enableOption (description : Option String) (category : Option String) :
    Except Fault Term := do
  let text := description.getD ""
  let text ← match category with
    | some c => do pure (text ++ (← categoryLabel c))
    | none => pure text
  let shown := if text.isEmpty then "\"\"" else stringText true text
  return .raw ("mkEnableOption " ++ shown)

/-- How deep an option stands in a module. -/
def optionLevel : Nat := 2

/-- A setting as an option. -/
def settingTerm (s : Setting) (category : Option String) : Except Fault Term :=
  if s.name == enableName then enableOption s.description category
  else do
    let attributes ← optionAttributes s
    return .raw ("mkOption " ++ (Term.set attributes).write standardUnit optionLevel)

/-! ### Sets -/

/-- Attributes with the names they come from, and the collisions on the way. -/
structure Attributes where
  values : List (String × Term)
  owners : List (String × String)
  collisions : List Collision

namespace Attributes

def empty : Attributes := ⟨[], [], []⟩

/-- Adds the attribute for a name, unless another name has taken it. -/
def offer (a : Attributes) (name : String) (t : Term) : Attributes :=
  let key := identifierText name
  match a.owners.lookup key with
  | some owner => { a with collisions := a.collisions ++ [⟨name, owner, key⟩] }
  | none => ⟨a.values ++ [(key, t)], a.owners ++ [(key, name)], a.collisions⟩

/-- Collisions found inside an attribute. -/
def note (a : Attributes) (cs : List Collision) : Attributes :=
  { a with collisions := a.collisions ++ cs }

end Attributes

/-- The attributes of settings and groups, on top of others. -/
def addEntries (category : Option String) (a : Attributes) :
    List (String × Entry) → Except Fault Attributes
  | [] => .ok a
  | (_, .setting s) :: rest => do
    addEntries category (a.offer s.name (← settingTerm s category)) rest
  | (_, .group name entries) :: rest => do
    let inner ← addEntries category .empty entries
    addEntries category ((a.note inner.collisions).offer name (.set inner.values)) rest

/-- The attributes of a plugin. -/
def pluginAttributes (p : Plugin) (category : Option String) : Except Fault Attributes := do
  let a ← addEntries category .empty p.settings
  if (p.settings.lookup enableName).isSome then return a
  let enable ← enableOption p.description category
  return { a with values := a.values.foldl (fun vs (k, t) => assign k t vs) [(enableName, enable)] }

/-- The attributes of plugins, on top of others. -/
def addPlugins (category : Option String) (a : Attributes) :
    List (String × Plugin) → Except Fault Attributes
  | [] => .ok a
  | (name, p) :: rest => do
    let inner ← pluginAttributes p category
    addPlugins category ((a.note inner.collisions).offer name (.set inner.values)) rest

/-! ### Modules -/

/-- The lines every module starts with. -/
def moduleHeader : List String :=
  ["# This file is auto-generated by the plugin options extractor",
   "# DO NOT EDIT this file directly; instead update the generator",
   "",
   "\x7b lib, ... \x7d:",
   "let",
   "  inherit (lib) types mkEnableOption mkOption;",
   "in"]

/-- The text of a module and the collisions in it. -/
structure Module where
  text : String
  collisions : List Collision

/-- The module of plugins under their names. -/
def moduleOf (plugins : List (String × Plugin)) (category : Option String) :
    Except Fault Module := do
  let a ← addPlugins category .empty plugins
  let body := (Term.set a.values).write standardUnit 0
  return ⟨"\n".intercalate (moduleHeader ++ [body]), a.collisions⟩

end SettingsHarvest.Nix
