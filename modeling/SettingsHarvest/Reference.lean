import SettingsHarvest.Project

/-! What a name stands for.

A name is looked up in the scopes around it, from the inside out. Where that finds a declaration, the
declaration answers, even if it has no expression to offer; an import is followed to the export it
names. Only a name that no scope declares is searched for by spelling alone, among the variables of
the whole file.

`Project.denoted?` follows names and members of object literals to the expression they denote. A
chain of such steps has a bounded length, but each member access starts a chain of its own for the
object it reads from, and those can lead back into one another (`const a = a.b`). Such a circle has
no answer at all: it is `Fault.endlessReference`. -/
namespace SettingsHarvest
open Syntax

namespace Project

/-- The declaration an import leads to, if the file exports it; any other declaration is final. -/
def followImport (p : Project) (file : String) (d : Declaration) : Attempt Declaration :=
  match d.binding with
  | .imported source name => do
    match ← p.module? file source with
    | none => return d
    | some target => return ((← target.exports).lookup? name).getD d
  | _ => .ok d

/-- The declaration that the scopes around a name give it. -/
def declaration? (p : Project) (name : Site) : Attempt (Option Declaration) := do
  match ← name.scopedDeclaration? name.text with
  | none => return none
  | some d => return some (← p.followImport name.file d)

/-- The first initializer of a variable spelled like the name, anywhere in its file. -/
def initializerBySpelling? (name : Site) : Option Site :=
  (name.program.declaratorsOf name.text).findSome? (·.part? .value)

/-- The expression a name stands for. -/
def initializer? (p : Project) (name : Site) : Attempt (Option Site) := do
  match ← p.declaration? name with
  | some d => return d.value?
  | none => return initializerBySpelling? name

/-! ### Chains -/

/-- How many names and members one chain follows. -/
def longestChain : Nat := 16

/-- How many chains may start inside one another. -/
def deepestChain : Nat := 480

/-- One chain: names and members, followed until some other expression is reached. The objects that
members are read from are found by `object?`. -/
def chain (p : Project) (object? : Site → Attempt (Option Site)) : Nat → Site →
    Attempt (Option Site)
  | 0, _ => .ok none
  | steps + 1, s =>
    if s.hasKind .identifier then do
      match ← p.initializer? s with
      | some next => chain p object? steps next.unwrap
      | none => return none
    else if s.hasKind .memberExpression then
      match s.accessParts? with
      | none => .ok none
      | some (base, member) => do
        match ← object? base with
        | none => return none
        | some object => match ← object.propertyValue? member with
          | some next => chain p object? steps next.unwrap
          | none => return none
    else .ok (some s)

/-- A node of one kind. -/
def onlyKind (k : Kind) (found : Option Site) : Option Site := found.filter (·.hasKind k)

/-- Chains inside chains, with a bound on how deep. -/
def denotedWithin (p : Project) : Nat → Site → Attempt (Option Site)
  | 0, _ => .error .endlessReference
  | depth + 1, s =>
    p.chain (fun base => (onlyKind .object) <$> denotedWithin p depth base) longestChain s.unwrap

/-- The expression that names and members lead to from a site. -/
def denoted? (p : Project) (s : Site) : Attempt (Option Site) := p.denotedWithin deepestChain s

/-- The object literal an expression denotes. -/
def object? (p : Project) (s : Site) : Attempt (Option Site) :=
  (onlyKind .object) <$> p.denoted? s

/-- The list literal an expression denotes. -/
def array? (p : Project) (s : Site) : Attempt (Option Site) := (onlyKind .array) <$> p.denoted? s

end Project
end SettingsHarvest
