import SettingsHarvest.Extraction
import SettingsHarvest.Text.LetterCase

/-! What a plugin says about itself.

A plugin is defined by a call of `definePlugin` and declares its settings in a call of
`definePluginSettings`, each of which is given an object literal. The first call in a file counts. A
plugin that does not spell out its name is named after its directory. -/
namespace SettingsHarvest
open Syntax

namespace Syntax.Site

/-- The first call of a function by its plain name. -/
def findCall? (top : Site) (function : String) : Option Site :=
  top.findFirst? fun s => s.hasKind .callExpression
    && s.callee?.any fun c => c.hasKind .identifier && c.text == function

/-- The object literal that a call is given first. -/
def objectArgument? (call : Site) : Option Site :=
  (call.firstArgument?.map Site.unwrap).filter (·.hasKind .object)

/-- The object literal in the first call of a function. -/
def definedBy? (top : Site) (function : String) : Option Site :=
  (top.findCall? function).bind objectArgument?

end Syntax.Site

/-- What a definition says: a name and a description if they are texts, and whether the plugin was
changed. -/
structure Definition where
  name : Option String
  description : Option String
  isModified : Bool

namespace Project

/-- A member of a definition that is a text: a literal, or an expression with a text as value. -/
def textProperty? (p : Project) (definition : Site) (key : String) : Attempt (Option String) := do
  match ← definition.memberValue? key with
  | none => return none
  | some v =>
    if v.unwrap.isStringLiteral then return some (← v.unwrap.stringValue)
    else match ← p.evaluate v [] with
      | .ok (.text t) => return some t
      | _ => return none

/-- What the plugin defined in a file says about itself. -/
def definition? (p : Project) (top : Site) : Attempt (Option Definition) := do
  match top.definedBy? "definePlugin" with
  | none => return none
  | some d =>
    let name ← p.textProperty? d "name"
    let description ← p.textProperty? d "description"
    let isModified ← d.flagMember "isModified"
    return some ⟨name, description, isModified⟩

end Project

/-! ### Names of directories -/

/-- Characters between the words of the name of a directory. -/
def separatesWords (c : Char) : Bool := c == '-' || c == '_' || c == '.' || Text.isSpace c

/-- A word with its first character in upper case. -/
def capitalize : List Char → List Char
  | [] => []
  | c :: rest => Text.upperChar c ++ rest

/-- The words of a text, each capitalized and none of the separators kept. -/
def pascalCase (s : List Char) : List Char :=
  ((s.splitOnP separatesWords).map capitalize).flatten

/-- The name of a plugin after its directory. -/
def nameOfDirectory (directory : String) : String := String.ofList (pascalCase directory.toList)

end SettingsHarvest
