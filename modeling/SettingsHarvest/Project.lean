import SettingsHarvest.Path
import SettingsHarvest.Syntax.Declaration
import SettingsHarvest.Syntax.Program

/-! The files a reading looks at.

A `Project` holds the files given to it and those it can open, together with what imports and
constants outside the files stand for. A file that can be opened is parsed when somebody asks for
it. `Project.module?` follows an import specifier: one that starts with a dot is relative to the
importing file, any other goes by the longest alias that fits, and what fits no alias belongs to a
package and is left alone. -/
namespace SettingsHarvest
open Syntax

/-- A file with its syntax tree. -/
structure SourceFile where
  /-- Absolute and normal. -/
  path : String
  program : Thunk Node

namespace SourceFile

/-- The dialect a file is written in, by the end of its name. -/
def dialect (path : String) : Dialect := if path.endsWith ".tsx" then .markup else .plain

def ofText (path text : String) : SourceFile := ⟨path, Thunk.mk fun _ => parse (dialect path) text⟩

/-- The whole program, as a site. -/
def top (f : SourceFile) : Site := ⟨f.path, [], f.program.get⟩

def declarations (f : SourceFile) : Attempt NameTable := f.top.declarations

def exports (f : SourceFile) : Attempt NameTable := f.top.exports

end SourceFile

/-- A family of lookup tables whose entries are calls of a helper with a name; the name stands for a
text made from two constants declared next to the table. What was not given is a fault when it is
asked for. -/
structure LookupTable where
  helper : Attempt String
  baseConstant : Attempt String
  revisionConstant : Attempt String
  /-- The text with fields for both constants and the name. -/
  template : Attempt String

/-- Named members with their values. -/
abbrev EnumTable := List (String × List (String × Value))

structure Project where
  /-- What relative paths start from when the root is relative as well. -/
  workingDirectory : String
  root : String
  /-- Beginnings of import specifiers, with the directories they stand for; faults where these are
  no texts. -/
  aliases : Attempt (List (String × Attempt String))
  /-- Enumerations declared outside all the files. -/
  enums : EnumTable
  lookups : List LookupTable
  /-- The files read so far. -/
  known : List SourceFile
  /-- The files there are to read. -/
  readable : List SourceFile
  /-- Paths of files that no import may lead to: one that does is a fault. -/
  closed : List String

namespace Project

/-! ### Enumerations of the platform -/

def platformEnums : EnumTable :=
  [("ActivityType", [("PLAYING", .integer 0), ("STREAMING", .integer 1), ("LISTENING", .integer 2),
      ("WATCHING", .integer 3), ("CUSTOM", .integer 4), ("COMPETING", .integer 5)]),
   ("StatusType", [("ONLINE", .integer 0), ("IDLE", .integer 1), ("DND", .integer 2),
      ("INVISIBLE", .integer 3)]),
   ("ChannelType", [("GUILD_TEXT", .integer 0), ("DM", .integer 1), ("GUILD_VOICE", .integer 2)])]

/-- Further members for enumerations; a member given twice keeps its place and takes the new value. -/
def extendEnums (base more : EnumTable) : EnumTable :=
  more.foldl (fun table (name, members) =>
    assign name (members.foldl (fun ms (m, v) => assign m v ms) ((table.lookup name).getD [])) table)
    base

/-- The value of a member of an enumeration outside the files. -/
def enumMember? (p : Project) (enumeration member : String) : Option Value :=
  (p.enums.lookup enumeration).bind (·.lookup member)

/-! ### Files -/

/-- The absolute path a path stands for. -/
def place (p : Project) (path : String) : String :=
  Path.normalize (Path.join p.workingDirectory (Path.join p.root path))

/-- A file read before. -/
def known? (p : Project) (path : String) : Option SourceFile :=
  p.known.find? fun f => f.path == path

/-- A file read before, or one there is to read. -/
def file? (p : Project) (path : String) : Option SourceFile :=
  (p.known? path).or (p.readable.find? fun f => f.path == path)

/-- Takes a file into the project; a file already there under the path stays. -/
def register (p : Project) (f : SourceFile) : Attempt Project := do
  let _ ← f.exports
  return if (p.known? f.path).isSome then p else { p with known := p.known ++ [f] }

/-- Adds a source under a path. -/
def add (p : Project) (path code : String) : Attempt Project :=
  p.register (.ofText (p.place path) code)

/-! ### Modules -/

/-- Whether an import specifier goes by an alias: it is the alias, or continues it with a slash. -/
def fitsAlias (specifier short : String) : Bool :=
  specifier == short || specifier.startsWith (short ++ "/")

/-- The path behind the longest alias that fits. -/
def aliasTarget? (p : Project) (specifier : String) : Attempt (Option String) := do
  let longestFirst := (← p.aliases).mergeSort fun a b => a.1.length ≥ b.1.length
  match longestFirst.find? fun a => fitsAlias specifier a.1 with
  | none => return none
  | some (short, target) =>
    let rest := String.ofList
      ((specifier.toList.drop short.length).dropWhile (· == '/'))
    return some (Path.join (Path.join p.root (← target)) rest)

/-- What an import may leave out at the end of a path. -/
def moduleEndings : List String := [".ts", ".tsx", "/index.ts", "/index.tsx"]

/-- The paths an import may mean, the likeliest first. -/
def moduleCandidates (base : String) : List String :=
  (if base.endsWith ".ts" || base.endsWith ".tsx" then [base] else [])
    ++ moduleEndings.map (base ++ ·)

/-- The file an import specifier means, seen from a file. -/
def module? (p : Project) (importer specifier : String) : Attempt (Option SourceFile) := do
  let base? ←
    if specifier.startsWith "." then pure (some (Path.join (Path.directory importer) specifier))
    else p.aliasTarget? specifier
  match base?.bind fun base => (moduleCandidates (p.place base)).findSome? p.file? with
  | none => return none
  | some f => do
    if p.closed.contains f.path then throw (.closedFile f.path)
    let _ ← f.exports
    return some f

end Project
end SettingsHarvest
