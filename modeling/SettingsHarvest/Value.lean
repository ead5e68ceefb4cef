import SettingsHarvest.Number.Numeral
import SettingsHarvest.Text.LetterCase

/-! Literal values.

Settings hold texts, booleans, numbers and, as defaults, lists and records of them. The source
language has one sort of number; here an integral number is an integer as long as floating point
holds it exactly (`normalize`), and a floating-point number otherwise. -/
namespace SettingsHarvest

inductive Value where
  | null
  | truth (b : Bool)
  | integer (n : Int)
  | decimal (x : Binary64)
  | text (s : String)
  | list (items : List Value)
  | record (fields : List (String × Value))
  deriving Inhabited

namespace Value

def isNumber : Value → Bool
  | integer _ | decimal _ => true
  | _ => false

/-- From here on floating point no longer holds every integer. -/
def safeIntegerBound : Nat := 9007199254740992

/-- Integral numbers as integers. -/
def normalize : Value → Value
  | decimal x => match x.toInt? with
    | some n => if n.natAbs < safeIntegerBound then integer n else decimal x
    | none => decimal x
  | v => v

/-! ### Text of values -/

def intText (n : Int) : String :=
  String.ofList ((if n < 0 then ['-'] else []) ++ Nat.toDigits 10 n.natAbs)

mutual
/-- Whether a value can be written out: no integer in it has too many digits. -/
def isWritable : Value → Bool
  | integer n => (Nat.toDigits 10 n.natAbs).length ≤ longestNumeral
  | list items => areWritable items
  | record fields => haveWritable fields
  | _ => true

def areWritable : List Value → Bool
  | [] => true
  | v :: rest => isWritable v && areWritable rest

/-- Whether the values of all fields can be written out. -/
def haveWritable : List (String × Value) → Bool
  | [] => true
  | (_, v) :: rest => isWritable v && haveWritable rest
end

mutual
/-- A value as messages show it. -/
def shown : Value → String
  | null => "None"
  | truth b => if b then "True" else "False"
  | integer n => intText n
  | decimal x => x.decimalText
  | text s => Text.quoted s
  | list items => "[" ++ shownItems items ++ "]"
  | record fields => "\x7b" ++ shownFields fields ++ "\x7d"

def shownItems : List Value → String
  | [] => ""
  | [v] => shown v
  | v :: rest => shown v ++ ", " ++ shownItems rest

def shownFields : List (String × Value) → String
  | [] => ""
  | [(k, v)] => Text.quoted k ++ ": " ++ shown v
  | (k, v) :: rest => Text.quoted k ++ ": " ++ shown v ++ ", " ++ shownFields rest
end

/-- The text of a value as the source language writes it. -/
def plainText : Value → String
  | truth b => if b then "true" else "false"
  | decimal x => match (decimal x).normalize with
    | integer n => intText n
    | _ => x.decimalText
  | text s => s
  | v => v.shown

/-- A value that is going to be written out. -/
def writable (v : Value) : Attempt Value :=
  if v.isWritable then .ok v else .error (.overlongNumeral none)

/-- The text a value is looked up by, as an element or as a label. -/
def keyText (v : Value) : Attempt String := do return (← v.writable).plainText

theorem writable_cases (v : Value) : v.isWritable = true ∧ v.writable = .ok v ∨
    v.isWritable = false ∧ v.writable = .error (.overlongNumeral none) := by
  unfold writable
  cases v.isWritable with
  | true => exact .inl ⟨rfl, rfl⟩
  | false => exact .inr ⟨rfl, rfl⟩

theorem keyText_eq_ok {v : Value} {t : String} :
    v.keyText = .ok t ↔ v.isWritable = true ∧ v.plainText = t := by
  unfold keyText
  rcases v.writable_cases with ⟨hv, h⟩ | ⟨hv, h⟩ <;> rw [h]
  · exact ⟨fun heq => ⟨hv, Except.ok.inj heq⟩, fun ⟨_, heq⟩ => congrArg Except.ok heq⟩
  · exact ⟨nofun, fun ⟨hwritable, _⟩ => absurd (hv.symm.trans hwritable) (by decide)⟩

theorem keyText_eq_error {v : Value} {f : Fault} :
    v.keyText = .error f ↔ v.isWritable = false ∧ f = .overlongNumeral none := by
  unfold keyText
  rcases v.writable_cases with ⟨hv, h⟩ | ⟨hv, h⟩ <;> rw [h]
  · exact ⟨nofun, fun ⟨hlong, _⟩ => absurd (hv.symm.trans hlong) (by decide)⟩
  · exact ⟨fun heq => ⟨hv, (Except.error.inj heq).symm⟩, fun ⟨_, heq⟩ => congrArg Except.error heq.symm⟩

/-! ### Equality -/

/-- The integer a boolean, integer or integral number is equal to. -/
def asInteger? : Value → Option Int
  | truth b => some (if b then 1 else 0)
  | integer n => some n
  | decimal x => x.toInt?
  | _ => none

mutual
/-- Equality of values: numbers and booleans by numeric value, texts by characters, lists item by
item, records key by key in any order. -/
def agrees : Value → Value → Bool
  | text s, text t => s == t
  | null, null => true
  | decimal x, decimal y => x.sameValue y
  | list items, list others => agreeAll items others
  | record fields, record others =>
    fields.length == others.length && agreeFields fields others
  | a, b => match a.asInteger?, b.asInteger? with
    | some m, some n => m == n
    | _, _ => false

def agreeAll : List Value → List Value → Bool
  | [], [] => true
  | v :: rest, w :: others => agrees v w && agreeAll rest others
  | _, _ => false

/-- Whether every field has an equal partner. -/
def agreeFields : List (String × Value) → List (String × Value) → Bool
  | [], _ => true
  | (k, v) :: rest, others =>
    (match others.lookup k with
      | some w => agrees v w
      | none => false) && agreeFields rest others
end

end Value

/-- Places a value under a key: in the key's old place, or behind all others. -/
def assign {α : Type} (key : String) (value : α) : List (String × α) → List (String × α)
  | [] => [(key, value)]
  | (k, v) :: rest => if k == key then (k, value) :: rest else (k, v) :: assign key value rest

end SettingsHarvest
