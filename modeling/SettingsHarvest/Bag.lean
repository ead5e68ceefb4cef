import SettingsHarvest.Value

/-! Bags.

A bag is a record that grows where it is looked at: a missing key is given a record of its own that
grows as well, so that an entry can be set without making the levels above it first. A record that is
put into a bag as a value does not grow, and other values have no keys. A step that fails leaves behind
what the steps before it made.

Records are kept by number, and what stands under a key is the number of a record. So a record can stand
at several places, and what is set into it at one of them is there at all the others. A value that is
built for a place has records of its own. -/
namespace SettingsHarvest

namespace Value

def isRecord : Value → Bool
  | record _ => true
  | _ => false

theorem isRecord_null : null.isRecord = false := rfl
theorem isRecord_truth (t : Bool) : (truth t).isRecord = false := rfl
theorem isRecord_integer (n : Int) : (integer n).isRecord = false := rfl
theorem isRecord_decimal (x : Binary64) : (decimal x).isRecord = false := rfl
theorem isRecord_text (s : String) : (text s).isRecord = false := rfl
theorem isRecord_list (items : List Value) : (list items).isRecord = false := rfl

end Value

namespace Bag

/-- What stands under a key: a record, or a value without keys. -/
inductive Item where
  | record (number : Nat)
  | bare (v : Value) (h : v.isRecord = false)

structure Record where
  /-- Whether a missing key is given a record when it is looked at. -/
  grows : Bool
  fields : List (String × Item)

end Bag

/-- The records that were made, in order; the first is the bag itself. -/
structure Bag where
  records : List Bag.Record

namespace Bag
open Value

def empty : Bag := ⟨[⟨true, []⟩]⟩

/-- The bag itself, as an item. -/
def root : Item := .record 0

def fields (b : Bag) (number : Nat) : List (String × Item) :=
  (b.records[number]?.map Record.fields).getD []

def grows (b : Bag) (number : Nat) : Bool := b.records[number]?.any Record.grows

/-- The value of an item, for records no deeper inside one another than `depth`. -/
def valueOf (b : Bag) : Nat → Item → Value
  | _, .bare v _ => v
  | 0, .record _ => .record []
  | depth + 1, .record number => .record ((b.fields number).map fun (k, i) => (k, b.valueOf depth i))

/-- The bag as a plain value. Unless a record is inside itself, records are inside one another no deeper
than there are any. -/
def plain (b : Bag) : Value := b.valueOf b.records.length root

/-! ### Records -/

/-- Makes a record. -/
def make (r : Record) (b : Bag) : Bag × Item := (⟨b.records ++ [r]⟩, .record b.records.length)

/-- Puts an item under a key of a record. -/
def write (number : Nat) (key : String) (i : Item) (b : Bag) : Bag :=
  ⟨b.records.modify number fun r => { r with fields := assign key i r.fields }⟩

mutual
/-- Builds a value, with new records for those in it. -/
def build : Value → Bag → Bag × Item
  | .record fields, b =>
    let (b, items) := buildFields fields b
    b.make ⟨false, items⟩
  | .null, b => (b, .bare .null isRecord_null)
  | .truth t, b => (b, .bare (.truth t) (isRecord_truth t))
  | .integer n, b => (b, .bare (.integer n) (isRecord_integer n))
  | .decimal x, b => (b, .bare (.decimal x) (isRecord_decimal x))
  | .text s, b => (b, .bare (.text s) (isRecord_text s))
  | .list items, b => (b, .bare (.list items) (isRecord_list items))

def buildFields : List (String × Value) → Bag → Bag × List (String × Item)
  | [], b => (b, [])
  | (key, v) :: rest, b =>
    let (b, i) := build v b
    let (b, items) := buildFields rest b
    (b, (key, i) :: items)
end

/-! ### Looking -/

/-- What a value without keys is called in messages. -/
def kindOf : Value → String
  | .null => "NoneType"
  | .truth _ => "bool"
  | .integer _ => "int"
  | .decimal _ => "float"
  | .text _ => "str"
  | .list _ => "list"
  | .record _ => "dict"

/-- Why a value has nothing under a key. -/
def noKey : Value → Fault
  | .text _ => .keyIntoText
  | .list _ => .keyIntoList
  | v => .notIndexable (kindOf v)

/-- Why nothing can be set under a key of a value. -/
def noPlace : Value → Fault
  | .list _ => .keyIntoList
  | v => .notAssignable (kindOf v)

/-- What is under a key of an item; a record that grows is given one there if nothing is. -/
def look (key : String) (b : Bag) : Item → Except Fault (Bag × Item)
  | .bare v _ => .error (noKey v)
  | .record number => match (b.fields number).lookup key with
    | some i => .ok (b, i)
    | none =>
      if b.grows number then
        let (b, i) := b.make ⟨true, []⟩
        .ok (b.write number key i, i)
      else .error (.missingKey key)

/-- Follows keys from an item and makes a change at the last of them; and whether that worked. -/
def follow (change : Bag → Item → Bag × Option Fault) : List String → Bag → Item → Bag × Option Fault
  | [], b, i => change b i
  | key :: rest, b, i => match b.look key i with
    | .ok (b, i) => follow change rest b i
    | .error f => (b, some f)

/-- Looks along a path. -/
def get (path : List String) (b : Bag) : Bag × Option Fault :=
  follow (fun b _ => (b, none)) path b root

/-! ### Setting -/

/-- What a key can be set to: a value that is built for it, or an item that is there already. -/
inductive Given where
  | built (v : Value)
  | held (i : Item)

def take : Given → Bag → Bag × Item
  | .built v, b => build v b
  | .held i, b => (b, i)

/-- Puts something under a key of an item. -/
def put (key : String) (g : Given) (b : Bag) : Item → Bag × Option Fault
  | .bare v _ => (b, some (noPlace v))
  | .record number =>
    let (b, i) := b.take g
    (b.write number key i, none)

/-- Sets something at the end of a path, which has at least one key. -/
def set (path : List String) (g : Given) (b : Bag) : Bag × Option Fault :=
  match path.getLast? with
  | none => (b, none)
  | some key => follow (put key g) path.dropLast b root

end Bag
end SettingsHarvest
