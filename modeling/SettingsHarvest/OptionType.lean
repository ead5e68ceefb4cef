import SettingsHarvest.Evaluation

/-! The sort of a setting, as its `type` tells.

The sorts are members of an enumeration of the plugin interface, numbered from zero. A `type` names
one by its member, or has its number as value. Where the enumeration itself is in reach the value of
the member counts and not its name. -/
namespace SettingsHarvest
open Syntax

inductive OptionType where
  | string
  | number
  | bigint
  | boolean
  | select
  | slider
  | component
  | custom
  /-- A sort the interface does not know. -/
  | other
  deriving DecidableEq

namespace OptionType

/-- The sorts in the order of their numbers. -/
def all : List OptionType :=
  [string, number, bigint, boolean, select, slider, component, custom]

def name : OptionType → String
  | string => "STRING"
  | number => "NUMBER"
  | bigint => "BIGINT"
  | boolean => "BOOLEAN"
  | select => "SELECT"
  | slider => "SLIDER"
  | component => "COMPONENT"
  | custom => "CUSTOM"
  | other => "OTHER"

def ofName? (n : String) : Option OptionType := all.find? fun t => t.name == n

/-- The sort with a number; only an integer is one. -/
def ofValue? : Value → Option OptionType
  | .integer n => if n < 0 then none else all[n.toNat]?
  | _ => none

/-- Sorts that say nothing about the value: it is up to the default. -/
def isComponent (t : OptionType) : Bool := t == component || t == custom

end OptionType

namespace Project

/-- The sort that `base.member` names. -/
def memberOptionType? (p : Project) (access : Site) : Attempt (Option OptionType) :=
  match access.accessParts? with
  | none => .ok none
  | some (base, member) => do
    let declared ← if base.unwrap.hasKind .identifier then do
        match ← p.declaration? base.unwrap with
        | some ⟨_, site, .enumeration⟩ =>
          pure (((← p.enumMembers site).lookup member).bind OptionType.ofValue?)
        | _ => pure none
      else pure none
    return declared.or (OptionType.ofName? member)

/-- The sort of a setting: none if it has no `type`. -/
def optionTypeOf (p : Project) (setting : Site) : Attempt (Outcome (Option OptionType)) := do
  match (← setting.memberValue? "type").map Site.unwrap with
  | none => return .ok none
  | some s =>
    let named ← if s.hasKind .memberExpression then p.memberOptionType? s else pure none
    match named with
    | some t => return .ok (some t)
    | none => match ← p.evaluate s [] with
      | .ok v => match OptionType.ofValue? v with
        | some t => return .ok (some t)
        | none => return .error (.unknownOptionType (← v.writable))
      | .error _ => return .error (.unresolvedOptionType s.text)

end Project
end SettingsHarvest
