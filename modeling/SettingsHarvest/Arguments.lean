/-! Arguments of the command line.

An argument that starts with a dash is an option: one of those below, the beginning of a long one
that no other starts with, or an unknown one. Options take one value or none; a value follows, or
stands behind an equals sign. Short options may be written together, and what is none among them is
left alone with all that follows it. So are unknown options and arguments that belong to no option,
and behind two dashes alone there are no options. -/
namespace SettingsHarvest

inductive Format where
  | nix | json | yaml
  deriving DecidableEq

def Format.name : Format → String
  | nix => "nix"
  | json => "json"
  | yaml => "yaml"

/-- The format in capitals. -/
def Format.title : Format → String
  | nix => "NIX"
  | json => "JSON"
  | yaml => "YAML"

structure Arguments where
  vencord : Option String := none
  vencordPlugins : Option String := none
  equicord : Option String := none
  equicordPlugins : Option String := none
  output : Option String := none
  format : Format := .nix
  includeHidden : Bool := false
  config : Option String := none
  verbose : Bool := false

namespace Arguments

/-- Why there are no arguments to work with. -/
inductive Refusal where
  | usage
  | help

/-! ### Options -/

inductive Switch where
  | help | verbose | includeHidden
  deriving DecidableEq

inductive Slot where
  | vencord | vencordPlugins | equicord | equicordPlugins | output | format | config
  deriving DecidableEq

/-- What an option is: a switch, or a slot for a value. -/
inductive Kind where
  | switch (s : Switch)
  | slot (s : Slot)

def spellings : List (String × Kind) :=
  [("-h", .switch .help), ("--help", .switch .help), ("--vencord", .slot .vencord),
   ("--vencord-plugins", .slot .vencordPlugins), ("--equicord", .slot .equicord),
   ("--equicord-plugins", .slot .equicordPlugins), ("--output", .slot .output),
   ("--format", .slot .format), ("--include-hidden", .switch .includeHidden),
   ("--config", .slot .config), ("-v", .switch .verbose), ("--verbose", .switch .verbose)]

/-- What an argument is taken for. -/
inductive Word where
  /-- An option, with a value behind an equals sign or without one. -/
  | option (o : Kind) (value : Option String)
  /-- A short switch with more letters behind it. -/
  | together (first : Switch) (letters : List Char)
  | unknown
  | plain

/-- The parts in front of and behind the first equals sign. -/
def splitEquals : List Char → List Char × Option (List Char)
  | [] => ([], none)
  | '=' :: r => ([], some r)
  | c :: r =>
    let (a, b) := splitEquals r
    (c :: a, b)

/-- A negative number, which is no option. -/
def isNegativeNumber : List Char → Bool
  | '-' :: r =>
    let digits := r.dropWhile Char.isDigit
    (!r.isEmpty && digits.isEmpty) || match digits with
      | '.' :: f => !f.isEmpty && f.all Char.isDigit
      | _ => false
  | _ => false

def isLong (arg : List Char) : Bool :=
  match arg with
  | '-' :: '-' :: _ => true
  | _ => false

/-- What an argument can mean that is no option in full. -/
def candidates (arg : List Char) : List Word :=
  if isLong arg then
    let (beginning, value) := splitEquals arg
    spellings.filterMap fun (name, o) =>
      if beginning.isPrefixOf name.toList then some (.option o (value.map String.ofList)) else none
  else
    spellings.filterMap fun (name, o) => match o with
      | .switch s => if name.toList == arg.take 2 then some (.together s (arg.drop 2)) else none
      | .slot _ => none

/-- What an argument is taken for; an ambiguous one is refused. -/
def wordOf (arg : String) : Except Refusal Word :=
  let cs := arg.toList
  if cs.head? != some '-' || cs.length == 1 then .ok .plain
  else match spellings.lookup arg with
    | some o => .ok (.option o none)
    | none =>
      let (name, value) := splitEquals cs
      match value, spellings.lookup (String.ofList name) with
      | some v, some o => .ok (.option o (some (String.ofList v)))
      | _, _ => match candidates cs with
        | [w] => .ok w
        | _ :: _ :: _ => .error .usage
        | [] => .ok (if isNegativeNumber cs || cs.contains ' ' then .plain else .unknown)

/-- All arguments with what they are taken for. -/
def words : List String → Except Refusal (List (String × Word))
  | [] => .ok []
  | "--" :: rest => .ok (("--", .unknown) :: rest.map (·, .plain))
  | arg :: rest => do
    let w ← wordOf arg
    return (arg, w) :: (← words rest)

/-! ### Reading -/

def throwSwitch (a : Arguments) : Switch → Except Refusal Arguments
  | .help => .error .help
  | .verbose => .ok { a with verbose := true }
  | .includeHidden => .ok { a with includeHidden := true }

def formatOf (name : String) : Except Refusal Format :=
  match [Format.nix, .json, .yaml].find? (·.name == name) with
  | some f => .ok f
  | none => .error .usage

def fill (a : Arguments) (value : String) : Slot → Except Refusal Arguments
  | .vencord => .ok { a with vencord := some value }
  | .vencordPlugins => .ok { a with vencordPlugins := some value }
  | .equicord => .ok { a with equicord := some value }
  | .equicordPlugins => .ok { a with equicordPlugins := some value }
  | .output => .ok { a with output := some value }
  | .format => do return { a with format := ← formatOf value }
  | .config => .ok { a with config := some value }

/-- The short switches in letters behind a switch, up to a letter that is none. -/
def switchesFrom (first : Switch) : List Char → Except Refusal (List Switch)
  | [] => .ok [first]
  | c :: r =>
    if c == '-' then .error .usage
    else match spellings.lookup (String.ofList ['-', c]) with
      | some (.switch s) =>
        if r.head? == some '=' then .error .usage
        else do return first :: (← switchesFrom s r)
      | _ => .ok [first]

/-- Arguments from left to right. -/
def read (a : Arguments) : List (String × Word) → Except Refusal Arguments
  | [] => .ok a
  | (_, .option (.switch s) none) :: rest => do read (← a.throwSwitch s) rest
  | (_, .option (.switch _) (some _)) :: _ => .error .usage
  | (_, .together first letters) :: rest => do
    read (← (← switchesFrom first letters).foldlM throwSwitch a) rest
  | (_, .option (.slot s) (some value)) :: rest => do read (← a.fill value s) rest
  | (_, .option (.slot s) none) :: (value, .plain) :: rest => do read (← a.fill value s) rest
  | (_, .option (.slot _) none) :: _ => .error .usage
  | (_, .unknown) :: rest | (_, .plain) :: rest => read a rest

/-- The arguments of a command line; the first tree has to be given. -/
def parse (args : List String) : Except Refusal Arguments := do
  let a ← read {} (← words args)
  if a.vencord.isNone then throw .usage
  return a

end Arguments
end SettingsHarvest
