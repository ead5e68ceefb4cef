import SettingsHarvest.CommandLine

/-! The program.

The files that a run can ask for are taken in before it: the source trees, the configuration and what
stands around the output. The run itself then is `CommandLine.run`, and what it wrote into its tree
is written out. Only source texts and the configuration are ever read, so other files are taken in
by name alone. -/
namespace SettingsHarvest.Program

/-- The names in an absolute path. -/
def namesOf (path : String) : List String :=
  (Path.segments (Path.normalize path)).filter (· != "")

def pathOf (names : List String) : String := "/" ++ "/".intercalate names

/-- Takes in a file or a directory, and if asked to everything in it. -/
partial def takeIn (deep : Bool) (t : FileTree) (path : String) : IO FileTree := do
  let here ← IO.currentDir
  let place := here / path
  if ← place.isDir then
    let mut t := { t with folders := t.folders ++ [namesOf path] }
    if deep then
      for entry in ← place.readDir do
        t ← takeIn true t (Path.join path entry.fileName)
    return t
  else if !(← place.pathExists) || t.isFile path then return t
  else
    let wanted := !deep || path.endsWith ".ts" || path.endsWith ".tsx"
    let text ← if wanted then IO.FS.readFile place else pure ""
    return { t with files := t.files ++ [(namesOf path, text)] }

/-- The directories a path leads through, the path itself among them. -/
def stations (names : List String) : List String :=
  (List.range (names.length + 1)).map fun n => pathOf (names.take n)

/-- The tree of files for a command line. -/
def snapshot (args : List String) : IO FileTree := do
  let here ← IO.currentDir
  let start : FileTree := ⟨namesOf here.toString, [], []⟩
  match Arguments.parse args with
  | .error _ => return start
  | .ok a =>
    let absolute (path : String) := Path.normalize (Path.join start.workingPath path)
    let roots := [a.vencord, a.equicord].filterMap id |>.map absolute
    let others := a.config.toList.map absolute
      ++ a.output.toList.flatMap fun o => stations (namesOf (absolute o))
      ++ a.output.toList.flatMap fun o =>
        let folder := Path.join (absolute o) CommandLine.Run.moduleFolder
        folder :: ["shared", "vencord", "equicord"].map fun label =>
          Path.join folder (CommandLine.Run.moduleName label)
    let t ← roots.foldlM (takeIn true) start
    others.foldlM (takeIn false) t

/-- Writes what a run changed. -/
def writeOut (before after : FileTree) : IO Unit := do
  for names in after.folders do
    unless before.folders.contains names do IO.FS.createDirAll (pathOf names)
  for (names, text) in after.files do
    unless before.files.lookup names == some text do IO.FS.writeFile (pathOf names) text

end SettingsHarvest.Program

open SettingsHarvest in
def main (args : List String) : IO UInt32 := do
  let before ← Program.snapshot args
  match CommandLine.run args before with
  | .error f =>
    IO.eprintln f.message
    return 1
  | .ok r =>
    IO.print r.output
    r.reports.forM fun line => IO.eprintln line
    Program.writeOut before r.tree
    return r.status.toUInt32
