import SettingsHarvest.Fault
import SettingsHarvest.Path

/-! Trees of files.

A tree holds texts under names, a file being named by the directories it stands in and its own name.
A path is walked from the root, or from the working directory if it is relative, and every step has
to start in a directory; what the walk ends at is what reading, listing and writing go by. -/
namespace SettingsHarvest

structure FileTree where
  workingDirectory : List String
  files : List (List String × String)
  /-- Directories; those that something stands in need not be listed. -/
  folders : List (List String)

namespace FileTree

/-- What a path leads to. -/
inductive Found where
  | file (names : List String) (text : String)
  | folder (names : List String)
  /-- Nothing, in a directory where it could be made. -/
  | vacant (names : List String)
  /-- Nothing, and not even a directory for it. -/
  | absent
  /-- A file is in the way. -/
  | blocked

/-- Whether names lead to a directory. -/
def isFolderAt (t : FileTree) (names : List String) : Bool :=
  names.isEmpty || t.folders.any names.isPrefixOf
    || t.files.any fun f => names.isPrefixOf f.1 && names != f.1

/-- What stands under names, in a directory that is there. -/
def under (t : FileTree) (names : List String) : Found :=
  match t.files.lookup names with
  | some text => .file names text
  | none => if t.isFolderAt names then .folder names else .vacant names

/-- Walks segments of a path from a place, whose names are kept backwards. -/
def walk (t : FileTree) (place : List String) : List String → Found
  | [] => t.under place.reverse
  | s :: rest =>
    match t.under place.reverse with
    | .folder _ =>
      if s == "" || s == "." then walk t place rest
      else if s == ".." then walk t place.tail rest
      else walk t (s :: place) rest
    | .file .. => .blocked
    | _ => .absent

def find (t : FileTree) (path : String) : Found :=
  if path.isEmpty then .absent
  else t.walk (if Path.isAbsolute path then [] else t.workingDirectory.reverse) (Path.segments path)

def isFile (t : FileTree) (path : String) : Bool :=
  match t.find path with
  | .file .. => true
  | _ => false

def isFolder (t : FileTree) (path : String) : Bool :=
  match t.find path with
  | .folder _ => true
  | _ => false

def isThere (t : FileTree) (path : String) : Bool := t.isFile path || t.isFolder path

/-- The working directory as a path. -/
def workingPath (t : FileTree) : String := "/" ++ "/".intercalate t.workingDirectory

/-! ### Listing -/

/-- The name behind others, if it is one step further. -/
def childName? (names other : List String) : Option String :=
  if names.isPrefixOf other then (other.drop names.length).head? else none

/-- A name into a list sorted by characters, unless it is there. -/
def insertName (name : String) : List String → List String
  | [] => [name]
  | n :: rest =>
    if name == n then n :: rest
    else if name < n then name :: n :: rest
    else n :: insertName name rest

/-- The names in a directory, sorted. -/
def list (t : FileTree) (path : String) : List String :=
  match t.find path with
  | .folder names =>
    ((t.files.map (·.1) ++ t.folders).filterMap (childName? names)).foldl
      (fun found name => insertName name found) []
  | _ => []

/-! ### Reading and writing -/

def read (t : FileTree) (path : String) : Except Fault String :=
  match t.find path with
  | .file _ text => .ok text
  | .folder _ => .error (.isDirectory path)
  | .blocked => .error (.notDirectory path)
  | .vacant _ | .absent => .error (.noSuchFile path)

/-- A path without slashes at its end. -/
def trimSlashes (path : String) : String :=
  String.ofList (path.toList.reverse.dropWhile (· == '/')).reverse

/-- The tree with a text under a path; what was there before is replaced. -/
def write (t : FileTree) (path text : String) : Except Fault FileTree :=
  match t.find path with
  | .file names _ =>
    .ok { t with files := t.files.map fun f => if f.1 == names then (names, text) else f }
  | .vacant names => .ok { t with files := t.files ++ [(names, text)] }
  | .folder _ => .error (.isDirectory path)
  | .blocked => .error (.notDirectory path)
  | .absent => match t.find (trimSlashes path) with
    | .vacant _ => .error (.isDirectory path)
    | _ => .error (.noSuchFile path)

/-- The tree with a new directory. -/
def makeFolder (t : FileTree) (path : String) : Except Fault FileTree :=
  match t.find (if path.isEmpty || path == "/" then path else trimSlashes path) with
  | .file .. | .folder _ => .error (.fileExists path)
  | .vacant names => .ok { t with folders := t.folders ++ [names] }
  | .blocked => .error (.notDirectory path)
  | .absent => .error (.noSuchFile path)

/-- The tree with a directory and those it stands in; one that is there already is left alone. -/
def makeFolders (t : FileTree) : Nat → String → Except Fault FileTree
  | 0, _ => .ok t
  | bound + 1, path => do
    let path' := if Path.base path == "" then Path.directory path else path
    let head := Path.directory path'
    let above := !head.isEmpty && Path.base path' != "" && !t.isThere head
    let t ← if above then
        match t.makeFolders bound head with
        | .error (.fileExists _) => pure t
        | other => other
      else pure t
    if above && Path.base path' == "." then return t
    match t.makeFolder path with
    | .ok t => return t
    | .error f => if t.isFolder path then return t else throw f

/-- The tree with a directory under a path. -/
def ensureFolder (t : FileTree) (path : String) : Except Fault FileTree :=
  t.makeFolders path.length path

end FileTree
end SettingsHarvest
