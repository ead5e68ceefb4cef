import SettingsHarvest.Bag
import SettingsHarvest.Catalog

/-! Plugins of two trees, split into three categories.

A plugin of the first tree may have a counterpart in the second: the shared plugin of the same name,
a plugin it is renamed to, or a shared plugin in a directory of the same name. A counterpart that was
not modified stands for both, and the plugin is generic. Otherwise the plugin remains a plugin of the
first tree alone, and the modified counterpart goes with the plugins of the second tree. -/
namespace SettingsHarvest

structure Categories where
  /-- Plugins that are the same in both trees, as the second tree has them. -/
  generic : Plugins
  firstOnly : Plugins
  secondOnly : Plugins

namespace Categories

/-- Categories with the labels they have in documents. -/
def labelled (c : Categories) : List (String × Plugins) :=
  [("shared", c.generic), ("vencord", c.firstOnly), ("equicord", c.secondOnly)]

/-! ### Counterparts -/

/-- Whether a rename says nothing. -/
def isVoid : Datum → Bool
  | .null => true
  | .truth b => !b
  | .integer n => n == 0
  | .decimal x => x.isZero
  | .text s => s.isEmpty
  | .list items => items.isEmpty
  | .mapping entries => entries.isEmpty
  | .other .. => false

/-- What a plugin is renamed to, under its name or its name in lower case. A name in another form
than a text belongs to no plugin, and one that cannot be a key is a fault. -/
def renamed? (renames : Preferences) (name : String) : Attempt (Option String) :=
  let lower := Datum.lookup? (.text (Text.lower name)) renames
  let target := match Datum.lookup? (.text name) renames with
    | some d => if isVoid d then lower else some d
    | none => lower
  match target with
  | some (.text s) => .ok (some s)
  | some d => if d.isKey then .ok none else .error (.notKey d.kind)
  | none => .ok none

/-- The shared plugin in a directory of a name, in any case of letters; of several the last. -/
def inFolder? (shared : Plugins) (folder : String) : Option Plugin :=
  (shared.reverse.find? fun p => Text.lower p.2.directory == Text.lower folder).map (·.2)

/-- The plugin of the second tree that is a plugin of the first. -/
def counterpart? (renames : Preferences) (second : Catalog) (name : String) (p : Plugin) :
    Attempt (Option Plugin) := do
  match second.shared.lookup name with
  | some c => return some c
  | none =>
    let byRename := (← renamed? renames name).bind fun n =>
      (second.own.lookup n).or (second.shared.lookup n)
    return byRename.or (inFolder? second.shared p.directory)

/-! ### Splitting -/

/-- Plugins of the first tree as far as they are split, names of counterparts that were met, and the
modified ones among these. -/
structure Split where
  generic : Plugins
  firstOnly : Plugins
  matched : List String
  modified : Plugins

/-- Splits off one plugin, given its counterpart. -/
def Split.add (s : Split) (name : String) (p : Plugin) : Option Plugin → Split
  | none => { s with firstOnly := assign name p s.firstOnly }
  | some c =>
    let s := { s with matched := c.name :: s.matched }
    if c.isModified then
      { s with
        firstOnly := assign name p s.firstOnly
        modified := assign c.name c s.modified }
    else { s with generic := assign name c s.generic }

def Split.of (renames : Preferences) (second : Catalog) (first : Plugins) : Attempt Split :=
  first.foldlM (fun s (name, p) => do
    return s.add name p (← counterpart? renames second name p)) ⟨[], [], [], []⟩

/-- The plugins of the second tree alone: its own ones that are no counterpart, modified
counterparts, and shared plugins that are no counterpart unless their name is taken. -/
def Split.secondOnly (s : Split) (second : Catalog) : Plugins :=
  let unmatched := fun (e : String × Plugin) => !s.matched.contains e.1
  let own := second.own.filter unmatched
  let withModified := s.modified.foldl (fun ps (name, p) => assign name p ps) own
  (second.shared.filter unmatched).foldl (fun ps (name, p) =>
    if (ps.lookup name).isSome then ps else ps ++ [(name, p)]) withModified

/-- The categories of a tree, or of two. -/
def ofCatalogs (renames : Preferences) (first : Catalog) (second : Option Catalog) :
    Attempt Categories :=
  match second with
  | none => .ok ⟨[], first.shared, []⟩
  | some second => do
    let s ← Split.of renames second first.shared
    return ⟨Catalog.byName s.generic, Catalog.byName s.firstOnly,
      Catalog.byName (s.secondOnly second)⟩

/-! ### Documents -/

/-- Sets every plugin in a bag, under the label of its category and its name. -/
def bag (c : Categories) : Bag :=
  c.labelled.foldl (fun b (label, plugins) =>
    plugins.foldl (fun b (name, p) => (b.set [label, name] (.built p.toValue)).1) b) Bag.empty

/-- The categories as one value; a category without plugins is left out. -/
def document (c : Categories) : Value := c.bag.plain

end Categories
end SettingsHarvest
