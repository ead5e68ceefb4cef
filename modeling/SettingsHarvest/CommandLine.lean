import SettingsHarvest.Arguments
import SettingsHarvest.Categories
import SettingsHarvest.Json
import SettingsHarvest.Nix.Module
import SettingsHarvest.Yaml.Writer

/-! The command line.

A run takes arguments and a tree of files to an exit status, what it prints, what it reports, and the
tree with the files it wrote. Reports are log lines and plain lines; information is logged on request
only. What is wrong with the input ends a run with a report and the status 1, and wrong arguments
end it with the status 2. -/
namespace SettingsHarvest.CommandLine

/-! ### Reports -/

/-- A line of the log. -/
def logLine (severity : Severity) (source message : String) : String :=
  severity.label ++ ":" ++ source ++ ":" ++ message

structure Console where
  verbose : Bool
  output : String
  /-- Reports, in the order they were made. -/
  reports : List String
  tree : FileTree

/-- How a run can end early. -/
inductive Stop where
  | exit (status : Nat)
  | fault (f : Fault)

abbrev Run := ExceptT Stop (StateM Console)

namespace Run

def print (text : String) : Run Unit :=
  modify fun c => { c with output := c.output ++ text ++ "\n" }

def report (line : String) : Run Unit :=
  modify fun c => { c with reports := c.reports ++ [line] }

def log (severity : Severity) (source message : String) : Run Unit := do
  if severity != .info || (← get).verbose then report (logLine severity source message)

/-- Ends the run with a report. -/
def fail {α : Type} (message : String) : Run α := do
  log .error "root" message
  throw (.exit 1)

def orStop {α : Type} (a : Attempt α) : Run α :=
  match a with
  | .ok x => pure x
  | .error f => throw (.fault f)

/-- An answer; a fault of a kind that is expected is reported, and any other ends the run. -/
def orFail {α : Type} (expected : Fault → Bool) (message : Fault → String) (a : Attempt α) :
    Run α :=
  match a with
  | .ok x => pure x
  | .error f => if expected f then fail (message f) else throw (.fault f)

/-! ### Input -/

def isConfigurationFault : Fault → Bool
  | .configuration _ => true
  | _ => false

def isScanFault : Fault → Bool
  | .noPluginDirectories .. => true
  | _ => false

def invalid (f : Fault) : String := s!"Invalid configuration: {f.message}"

def configuration (path : Option String) : Run Configuration := do
  match path with
  | none => return .standard
  | some path =>
    let (warning, preferences) ←
      orFail isConfigurationFault invalid (Preferences.load (← get).tree path)
    if let some w := warning then log .warning "extractor_config" w
    return .ofPreferences (← orFail isConfigurationFault invalid preferences)

/-- A source tree given by its root. -/
def catalog (c : Configuration) (root : String) (shared own : Option String)
    (retainHidden : Bool) : Run Catalog := do
  let (found, notes) ← orFail isScanFault Fault.message
    (Catalog.scan (← get).tree c root shared own retainHidden)
  notes.forM fun n => log n.severity "plugin_options_extractor" n.message
  return found

def requireFolder (what path : String) : Run Unit := do
  if !(← get).tree.isFolder path then fail s!"{what} source tree not found: {path}"

/-! ### Output -/

/-- The directory that modules are written to, in the one given. -/
def moduleFolder : String := "plugins"

def moduleText (label : String) (plugins : Plugins) : Run String := do
  let m ← orStop (Nix.moduleOf plugins (some label))
  m.collisions.forM fun c => log .warning "nix_generator" c.message
  return m.text

def moduleName (label : String) : String := label ++ ".nix"

/-- Puts a changed tree in place; a fault of the files is reported. -/
def store (message : Fault → String) (change : FileTree → Except Fault FileTree) : Run Unit := do
  let t ← orFail Fault.isFileFault message (change (← get).tree)
  modify fun c => { c with tree := t }

def modulesFailed (f : Fault) : String := s!"Failed to write Nix modules: {f.message}"

/-- Writes a module for every category. -/
def writeModules (c : Categories) (folder : String) : Run Unit := do
  let folder := Path.join folder moduleFolder
  store modulesFailed (·.ensureFolder folder)
  let paths ← c.labelled.mapM fun (label, plugins) => do
    let path := Path.join folder (moduleName label)
    -- The file is made before its text is known.
    store modulesFailed (·.write path "")
    let text ← moduleText label plugins
    store modulesFailed (·.write path (text ++ "\n"))
    return path
  paths.forM fun path => report s!"✅ Nix module generated at {path}"

def printModules (c : Categories) : Run Unit :=
  c.labelled.forM fun (label, plugins) => do
    print s!"# ==> {moduleFolder}/{moduleName label} <=="
    print (← moduleText label plugins)

/-- Writes a document to a file, or prints it. -/
def deliver (format : Format) (text : String) (path : Option String) : Run Unit := do
  match path with
  | some path =>
    store (fun f => s!"Failed to write output file: {f.message}") (·.write path text)
    report s!"✅ {format.title} output generated at {path}"
  | none => print text

/-- A text that is there and not empty. -/
def given (s : Option String) : Option String := s.filter (· != "")

/-- The categories as one document, unless an integer in it has too many digits. -/
def document (c : Categories) : Run Value :=
  orStop (if c.document.isWritable then .ok c.document else .error (.overlongNumeral none))

def output (a : Arguments) (c : Categories) : Run Unit := do
  match a.format, given a.output with
  | .nix, some folder => writeModules c folder
  | .nix, none => printModules c
  | .json, path => deliver .json (Json.write (← document c)) path
  | .yaml, path => deliver .yaml (Yaml.Writer.write (← document c)) path

/-! ### The run -/

def work (a : Arguments) (root : String) : Run Unit := do
  let c ← configuration a.config
  requireFolder "Vencord" root
  (given a.equicord).forM (requireFolder "Equicord")
  let first ← catalog c root a.vencordPlugins none a.includeHidden
  let second ← (given a.equicord).mapM fun root =>
    catalog c root none a.equicordPlugins a.includeHidden
  let categories ← orStop (Categories.ofCatalogs c.renames first second)
  let summary := match second with
    | some s => first.summary.merge s.summary
    | none => first.summary
  output a categories
  report <| s!"Processed {summary.processed} of {summary.found} plugins, "
    ++ s!"skipped {summary.skipped}"
  if !summary.names.isEmpty then
    log .info "root" ("Skipped plugins: " ++ ", ".intercalate summary.names)

end Run

/-! ### Results -/

structure Result where
  status : Nat
  output : String
  reports : List String
  tree : FileTree

def usage : String :=
  "usage: --vencord DIR [--vencord-plugins DIR] [--equicord DIR] [--equicord-plugins DIR] "
    ++ "[--output PATH] [--format nix|json|yaml] [--include-hidden] [--config FILE] [-v]"

/-- What a command line does to a tree of files. -/
def run (args : List String) (tree : FileTree) : Attempt Result :=
  match Arguments.parse args with
  | .error .usage => .ok ⟨2, "", [usage], tree⟩
  | .error .help => .ok ⟨0, usage ++ "\n", [], tree⟩
  | .ok a =>
    let (ended, c) := (Run.work a (a.vencord.getD "")).run ⟨a.verbose, "", [], tree⟩
    match ended with
    | .ok () => .ok ⟨0, c.output, c.reports, c.tree⟩
    | .error (.exit status) => .ok ⟨status, c.output, c.reports, c.tree⟩
    | .error (.fault f) => .error f

end SettingsHarvest.CommandLine
