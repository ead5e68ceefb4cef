import SettingsHarvest.Configuration
import SettingsHarvest.Definition
import SettingsHarvest.PluginFolder
import SettingsHarvest.Setting

/-! Scanning source trees.

Every plugin directory is read on its own, so it does not matter in which order the answers come:
`gather` sorts them by the directories they are for. A directory that cannot be read, has no source
or gives the plugin no name is skipped, and of several plugins with one name the first directory
keeps it. A `Catalog` holds the plugins that both trees have a copy of apart from those that are a
tree's own. -/
namespace SettingsHarvest

/-! ### Notes -/

inductive Severity where
  | info | warning | error
  deriving DecidableEq

def Severity.label : Severity → String
  | info => "INFO"
  | warning => "WARNING"
  | error => "ERROR"

/-- What a scan has to say about itself. -/
inductive Note where
  | noSource (folder : String)
  | unreadable (name : String) (f : Fault)
  | nameless (folder : String)
  | failed (name : String) (f : Fault)
  | duplicate (name folder kept : String)
  | found (count : Nat) (folder : String)
  | progress (done count : Nat) (folder : String)

namespace Note

def severity : Note → Severity
  | noSource _ | found .. | progress .. => .info
  | unreadable .. | nameless _ | failed .. | duplicate .. => .warning

def message : Note → String
  | noSource folder => s!"No plugin source found in {folder}, skipping"
  | unreadable name f => s!"Failed to read plugin {name}: {f.message}"
  | nameless folder => s!"Could not determine a name for plugin in {folder}, skipping"
  | failed name f => s!"Failed to extract plugin {name}: {f.message}"
  | duplicate name folder kept => s!"Duplicate plugin name {name} in {folder}; keeping {kept}"
  | found count folder => s!"Found {count} plugins in {folder}"
  | progress done count folder => s!"Progress: {done}/{count} plugins in {folder}"

end Note

/-! ### Summaries -/

structure Summary where
  found : Nat
  processed : Nat
  skipped : Nat
  /-- The directories skipped. -/
  names : List String

namespace Summary

def empty : Summary := ⟨0, 0, 0, []⟩

def merge (s t : Summary) : Summary :=
  ⟨s.found + t.found, s.processed + t.processed, s.skipped + t.skipped, s.names ++ t.names⟩

end Summary

/-! ### One plugin -/

/-- Whether a fault comes from the file tree. -/
def Fault.isFileFault : Fault → Bool
  | noSuchFile _ | isDirectory _ | notDirectory _ | fileExists _ => true
  | _ => false

/-- Plugins under their names. -/
abbrev Plugins := List (String × Plugin)

namespace FileTree

/-- The files that imports can lead to. -/
def sources (t : FileTree) : List SourceFile :=
  (t.files.map fun (names, text) => ("/" ++ "/".intercalate names, text)).filterMap
    fun (path, text) =>
      if path.endsWith ".ts" || path.endsWith ".tsx" then some (.ofText path text) else none

/-- A source file of a project. -/
def openSource (t : FileTree) (p : Project) (path : String) : Attempt SourceFile := do
  let f ← match p.file? (p.place path) with
    | some f => pure f
    | none => pure (.ofText (p.place path) (← t.read (p.place path)))
  let _ ← f.exports
  return f

end FileTree

namespace Catalog

/-- The object literal with a plugin's settings: in its source file if that declares any, otherwise
in its settings file. -/
def settingsObject? (t : FileTree) (p : Project) (folder : PluginFolder) (source : SourceFile) :
    Attempt (Option Syntax.Site) := do
  let declares (f : SourceFile) := f.top.findCall? "definePluginSettings"
  match declares source, folder.settings with
  | some call, _ => return call.objectArgument?
  | none, none => return none
  | none, some path =>
    if path == folder.source then return none
    else return (declares (← t.openSource p path)).bind Syntax.Site.objectArgument?

/-- What is in the files of a plugin: what it says about itself, and its settings. -/
def contents (t : FileTree) (p : Project) (folder : PluginFolder) :
    Attempt (Option Definition × Option Syntax.Site) := do
  let source ← t.openSource p folder.source
  let definition ← p.definition? source.top
  return (definition, ← settingsObject? t p folder source)

/-- The name of a plugin: the one it gives itself, or one after its directory; neither is empty. -/
def nameOf? (definition : Option Definition) (folder : PluginFolder) : Option String :=
  let given := (definition.bind (·.name)).filter (· != "")
  let name := given.getD (nameOfDirectory folder.name)
  if name.isEmpty then none else some name

/-- The plugin in a directory, if there is one that can be read; and notes about it. -/
def plugin? (t : FileTree) (p : Project) (retainHidden : Bool) (path : String) :
    List Note × Attempt (Option Plugin) :=
  match PluginFolder.locate? t path with
  | none => ([.noSource path], .ok none)
  | some folder => match contents t p folder with
    | .error f =>
      if f.isFileFault then ([.unreadable folder.name f], .ok none) else ([], .error f)
    | .ok (definition, object) => match nameOf? definition folder with
      | none => ([.nameless path], .ok none)
      | some name =>
        let settings := match object with
          | some o => p.extract o retainHidden
          | none => .ok []
        ([], settings.map fun settings =>
          some ⟨name, folder.name, settings, definition.bind (·.description),
            (definition.map (·.isModified)).getD false⟩)

/-! ### One directory of plugins -/

/-- The plugin that an answer holds. -/
def plugin : Attempt (Option Plugin) → Option Plugin
  | .ok p => p
  | .error _ => none

/-- Plugins by name, counts, and notes about names taken. -/
structure Gathered where
  plugins : Plugins
  summary : Summary
  notes : List Note

/-- Takes in the answer for the next directory. -/
def Gathered.add (g : Gathered) (path : String) (answer : Option Plugin) : Gathered :=
  let folder := Path.base path
  match answer with
  | none => { g with summary := { g.summary with
      skipped := g.summary.skipped + 1, names := g.summary.names ++ [folder] } }
  | some p =>
    let g := { g with summary := { g.summary with processed := g.summary.processed + 1 } }
    match g.plugins.lookup p.name with
    | some kept => { g with notes := g.notes ++ [.duplicate p.name folder kept.directory] }
    | none => { g with plugins := g.plugins ++ [(p.name, p)] }

def byName (plugins : Plugins) : Plugins := plugins.mergeSort fun a b => !(b.1 < a.1)

/-- The answers for directories, which may come in any order, gathered in the order of the
directories. -/
def gather (folders : List String) (answers : List (String × Attempt (Option Plugin))) :
    Gathered :=
  let start : Gathered := ⟨[], { Summary.empty with found := folders.length }, []⟩
  let g := folders.foldl (fun g path => g.add path ((answers.lookup path).bind plugin)) start
  { g with plugins := byName g.plugins }

/-- A note for an answer that is a fault. -/
def failure? (answer : String × Attempt (Option Plugin)) : List Note :=
  match answer.2 with
  | .error f => [.failed (Path.base answer.1) f]
  | .ok _ => []

/-- Notes on how far the reading has come, each time so many answers are in. -/
def progress (interval count : Nat) (path : String) : List Note :=
  ((List.range (count + 1)).filter fun k => k != 0 && interval != 0 && k % interval == 0).map
    fun k => .progress k count path

/-- The plugins in a directory. -/
def folder (t : FileTree) (p : Project) (interval : Nat) (retainHidden : Bool) (path : String) :
    Gathered :=
  let folders := PluginFolder.all t path
  let read := folders.map fun f => (f, plugin? t p retainHidden f)
  let answers := read.map fun (f, _, answer) => (f, answer)
  let g := gather folders answers
  { g with notes := .found folders.length path :: read.flatMap (·.2.1)
      ++ answers.flatMap failure? ++ progress interval folders.length path ++ g.notes }

end Catalog

/-! ### One tree -/

/-- The plugins of a tree: those of the directory both trees have, and the tree's own. -/
structure Catalog where
  shared : Plugins
  own : Plugins
  summary : Summary

namespace Catalog

/-- What is taken of a directory if it is there. -/
def folderIfThere (t : FileTree) (p : Project) (interval : Nat) (retainHidden : Bool)
    (path : String) : Gathered :=
  if t.isFolder path then folder t p interval retainHidden path else ⟨[], .empty, []⟩

/-- A directory as given, if it is not empty, or else as configured. -/
def placeOf (root : String) (given : Option String) (configured : Attempt String) :
    Attempt String := do
  match given.filter (· != "") with
  | some path => return Path.join root path
  | none => return Path.join root (← configured)

/-- The plugins of the source tree under a root, and notes; directories may be given that count
instead of the configured ones. -/
def scan (t : FileTree) (c : Configuration) (root : String) (shared own : Option String)
    (retainHidden : Bool) : Attempt (Catalog × List Note) := do
  let first ← placeOf root shared c.sharedFolder
  let second ← placeOf root own c.ownFolder
  if !t.isFolder first && !t.isFolder second then
    throw (.noPluginDirectories root first second)
  let p := c.project t.workingPath root t.sources
  let a := folderIfThere t p c.progressInterval retainHidden first
  let b := folderIfThere t p c.progressInterval retainHidden second
  return (⟨a.plugins, b.plugins, (Summary.empty.merge a.summary).merge b.summary⟩,
    a.notes ++ b.notes)

end Catalog
end SettingsHarvest
