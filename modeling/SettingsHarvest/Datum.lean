import SettingsHarvest.Value

/-! Data of documents.

What a document holds is freer than a literal value: its mappings have keys of any kind, and there
are values of kinds that settings have no use for. Two keys are the same when they are equal as
values, so that the number one, its floating-point form and the truth value are one key; and a
mapping keeps the order in which its keys came first. -/
namespace SettingsHarvest

inductive Datum where
  | null
  | truth (b : Bool)
  | integer (n : Int)
  | decimal (x : Binary64)
  | text (s : String)
  | list (items : List Datum)
  | mapping (entries : List (Datum × Datum))
  /-- A value of another kind: the name of the kind, the value as messages show it, and as texts
  name it. -/
  | other (kind shown plain : String)
  deriving Inhabited

namespace Datum

/-- The kind of a datum, as messages call it. -/
def kind : Datum → String
  | null => "NoneType"
  | truth _ => "bool"
  | integer _ => "int"
  | decimal _ => "float"
  | text _ => "str"
  | list _ => "list"
  | mapping _ => "dict"
  | other kind _ _ => kind

mutual
/-- A datum as messages show it. -/
def shown : Datum → String
  | null => Value.null.shown
  | truth b => (Value.truth b).shown
  | integer n => (Value.integer n).shown
  | decimal x => (Value.decimal x).shown
  | text s => Text.quoted s
  | list items => "[" ++ shownItems items ++ "]"
  | mapping entries => "\x7b" ++ shownEntries entries ++ "\x7d"
  | other _ shown _ => shown

def shownItems : List Datum → String
  | [] => ""
  | [d] => shown d
  | d :: rest => shown d ++ ", " ++ shownItems rest

def shownEntries : List (Datum × Datum) → String
  | [] => ""
  | [(k, d)] => shown k ++ ": " ++ shown d
  | (k, d) :: rest => shown k ++ ": " ++ shown d ++ ", " ++ shownEntries rest
end

mutual
/-- Whether a datum can be written out: no integer in it has too many digits. -/
def isWritable : Datum → Bool
  | integer n => (Value.integer n).isWritable
  | list items => areWritable items
  | mapping entries => haveWritable entries
  | _ => true

def areWritable : List Datum → Bool
  | [] => true
  | d :: rest => isWritable d && areWritable rest

/-- Whether all keys and their data can be written out. -/
def haveWritable : List (Datum × Datum) → Bool
  | [] => true
  | (k, d) :: rest => isWritable k && isWritable d && haveWritable rest
end

/-- A datum where a text names it. -/
def plain : Datum → String
  | text s => s
  | other _ _ plain => plain
  | d => d.shown

def text? : Datum → Option String
  | text s => some s
  | _ => none

def entries? : Datum → Option (List (Datum × Datum))
  | mapping entries => some entries
  | _ => none

/-! ### Literal values -/

/-- A value that is neither a list nor a record. -/
def scalar? : Datum → Option Value
  | null => some .null
  | truth b => some (.truth b)
  | integer n => some (.integer n)
  | decimal x => some (.decimal x)
  | text s => some (.text s)
  | _ => none

/-! ### Keys -/

/-- Whether two data are the same key; lists and mappings are never keys. What is no number equals
nothing, but there is only one such datum, and that is one key. -/
def sameKey (a b : Datum) : Bool :=
  match a, b with
  | other _ s _, other _ t _ => s == t
  | decimal .nan, decimal .nan => true
  | a, b => match a.scalar?, b.scalar? with
    | some v, some w => v.agrees w
    | _, _ => false

/-- Whether a datum can be a key. -/
def isKey : Datum → Bool
  | list _ | mapping _ => false
  | _ => true

/-- The entry of a key. -/
def lookup? (key : Datum) (entries : List (Datum × Datum)) : Option Datum :=
  (entries.find? fun e => e.1.sameKey key).map (·.2)

/-- Places a datum under a key: in the place of the key it replaces, or behind all others. -/
def place (key d : Datum) : List (Datum × Datum) → List (Datum × Datum)
  | [] => [(key, d)]
  | (k, e) :: rest => if k.sameKey key then (k, d) :: rest else (k, e) :: place key d rest

/-- The entry under a text. -/
def get? (d : Datum) (key : String) : Option Datum :=
  d.entries?.bind (lookup? (text key))

/-! ### Merging -/

mutual
/-- A mapping over another: where both have a mapping under a key the two are merged, and everywhere
else the upper one counts. -/
def mergeEntries (base : List (Datum × Datum)) : List (Datum × Datum) → List (Datum × Datum)
  | [] => base
  | (k, d) :: rest => mergeEntries (place k (atop (lookup? k base) d) base) rest

/-- A datum over what was under the same key before. -/
def atop (below : Option Datum) : Datum → Datum
  | mapping entries => match below with
    | some (mapping base) => mapping (mergeEntries base entries)
    | _ => mapping entries
  | d => d
end

/-- A datum over another. -/
def merge (base override : Datum) : Datum := atop (some base) override

end Datum
end SettingsHarvest
