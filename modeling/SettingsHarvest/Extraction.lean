import SettingsHarvest.Classification
import SettingsHarvest.Default
import SettingsHarvest.Text.Search

/-! The settings of a plugin.

`Project.extract` walks the object literal that declares a plugin's settings. A member that is an
object is a setting, or a group if it has objects among its own members and neither a type nor a
description. A setting that cannot be typed is left out, without taking its neighbours with it. -/
namespace SettingsHarvest
open Syntax

/-- What a description of a setting that needs a restart ends with. -/
def restartSuffix : String := " (restart required)"

namespace Syntax.Site

/-- The text of a member that is a string literal. -/
def textMember? (object : Site) (key : String) : Attempt (Option String) := do
  match (← object.memberValue? key).map Site.unwrap with
  | some v => if v.isStringLiteral then return some (← v.stringValue) else return none
  | none => return none

/-- Whether a member is the literal `true`. -/
def flagMember (object : Site) (key : String) : Attempt Bool := do
  return (← object.memberValue? key).any Site.isTrue

/-- Whether an object groups settings: some member is an object, and it has no type and no
description. -/
def isGroup (object : Site) : Attempt Bool := do
  if ← object.hasMember "type" then return false
  if ← object.hasMember "description" then return false
  let found ← firstSome (fun pair => do
    match ← pair.memberKey?, pair.pairValue? with
    | some _, some v => return if v.unwrap.hasKind .object then some () else none
    | _, _ => return none) (object.named.filter (·.hasKind .pair))
  return found.isSome

/-- The description of a setting, or else its name. -/
def settingDescription? (object : Site) : Attempt (Option String) := do
  let description ← match ← object.textMember? "description" with
    | some d => pure (some d)
    | none => object.textMember? "name"
  match description with
  | none => return none
  | some d => return some (if ← object.flagMember "restartNeeded" then d ++ restartSuffix else d)

/-- The placeholder of a setting, unless the description mentions it. -/
def settingExample? (object : Site) (description : Option String) : Attempt (Option String) := do
  match ← object.textMember? "placeholder" with
  | none => return none
  | some e =>
    let mentioned := description.any fun d => Text.occursIn e.toList d.toList
    return if mentioned then none else some e

end Syntax.Site

namespace Project

/-- Everything the type and default of one setting are decided from. -/
structure Inspection where
  optionType : Outcome (Option OptionType)
  choices : Choices
  evidence : Evidence

def inspect (p : Project) (setting : Site) : Attempt Inspection := do
  let optionType ← p.optionTypeOf setting
  let choices ← p.choicesOf setting
  let evidence ← p.inspectDefault setting
  return ⟨optionType, choices, evidence⟩

namespace Inspection

/-- The sort, a failed one being none. -/
def sort? (i : Inspection) : Option OptionType := (valueOf? i.optionType).join

def observation (i : Inspection) : Observation := ⟨i.sort?, i.evidence, i.choices⟩

end Inspection

/-- One setting, from its object literal. -/
def extractSetting (p : Project) (name : String) (object : Site) : Attempt (Outcome Setting) := do
  let i ← p.inspect object
  match i.optionType, i.evidence.shape == .absent && i.choices.isEmpty with
  | .error f, true => return .error f
  | _, _ =>
    let (target, default) ← p.resolveDefault object (classify i.observation) i.evidence i.choices
      i.sort?
    let isEnum := target == .enum
    if isEnum && i.choices.isEmpty then return .error (.noChoices name)
    if isEnum && default.isNone then return .error (.noDefault name)
    let description ← object.settingDescription?
    let labels := if isEnum && !i.choices.labels.isEmpty then some i.choices.labels else none
    let example? ← object.settingExample? description
    let hidden ← object.flagMember "hidden"
    let restartNeeded ← object.flagMember "restartNeeded"
    return .ok
      { name, target, description, default, labels, hidden, restartNeeded
        choices := if isEnum then some i.choices.values else none
        example? := example? }

/-- Whether a member is left out for being hidden. -/
def leavesOut (retainHidden : Bool) (object : Site) : Attempt Bool :=
  if retainHidden then .ok false else object.flagMember "hidden"

/-- The entries of pairs, given how those of a group are found. -/
def entriesOf (p : Project) (retainHidden : Bool) (group : Site → Attempt Entries)
    (pairs : List Site) : Attempt Entries :=
  pairs.foldlM (fun (entries : Entries) pair => do
    match ← pair.memberKey?, pair.pairValue?.map Site.unwrap with
    | some key, some object =>
      if !object.hasKind .object then return entries
      if ← leavesOut retainHidden object then return entries
      if ← object.isGroup then return assign key (.group key (← group object)) entries
      match ← p.extractSetting key object with
      | .ok s => return assign key (.setting s) entries
      | .error _ => return entries
    | _, _ => return entries) []

/-- The entries of an object literal, with a bound on how deep groups nest. -/
def extractWithin (p : Project) (retainHidden : Bool) : Nat → Site → Attempt Entries
  | 0, _ => .ok []
  | depth + 1, object =>
    p.entriesOf retainHidden (p.extractWithin retainHidden depth)
      (object.named.filter (·.hasKind .pair))

/-- The settings that an object literal declares. Groups cannot nest deeper than the literal has
nodes. -/
def extract (p : Project) (object : Site) (retainHidden : Bool) : Attempt Entries :=
  p.extractWithin retainHidden (object.node.walk.length + 1) object

end Project
end SettingsHarvest
