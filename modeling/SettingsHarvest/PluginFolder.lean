import SettingsHarvest.FileTree

/-! Directories of plugins.

A plugin is a directory with an entry file. Its definition is in the first of a few files that is
there, its settings may be in a file of their own, and a directory of plugins lists those of its
directories that have an entry file. -/
namespace SettingsHarvest

structure PluginFolder where
  path : String
  /-- The file with the definition. -/
  source : String
  /-- The file that may hold the settings. -/
  settings : Option String

namespace PluginFolder

def entryFiles : List String := ["index.tsx", "index.ts"]

def sourceFiles : List String := entryFiles ++ ["settings.ts"]

def settingsFiles : List String := ["settings.tsx", "settings.ts"]

/-- The name of the directory. -/
def nameOf (path : String) : String := Path.base (Path.normalize path)

def name (f : PluginFolder) : String := nameOf f.path

/-- The first of some files that is in a directory. -/
def firstFile? (t : FileTree) (folder : String) (names : List String) : Option String :=
  (names.map (Path.join folder)).find? t.isFile

/-- The plugin in a directory, if a source file is there. -/
def locate? (t : FileTree) (folder : String) : Option PluginFolder :=
  (firstFile? t folder sourceFiles).map fun source =>
    ⟨folder, source, firstFile? t folder settingsFiles⟩

/-- The directories of plugins in a directory, sorted by name. -/
def all (t : FileTree) (folder : String) : List String :=
  ((t.list folder).map (Path.join folder)).filter fun path =>
    t.isFolder path && (firstFile? t path entryFiles).isSome

end PluginFolder
end SettingsHarvest
