import SettingsHarvest.Bag
import SettingsHarvest.Proofs.Assignment

/-! Bags as trees.

A bag none of whose records stands at two places is a tree. Operations on trees go along a path of keys
and change the plain value in one place: `PlacedAt` says that a value was put at the end of a path, that
everything beside the path is as before, and that the levels on the path keep their keys in order
(`follow_placed`). To get what is missing puts empty records there, one inside the other
(`get_of_missing`). -/
namespace SettingsHarvest

/-! ### Fields -/

section Fields

variable {α : Type} {key : String} {fields : List (String × α)}

theorem assign_of_lookup {value : α} (h : fields.lookup key = some value) :
    assign key value fields = fields := by
  induction fields with
  | nil => cases h
  | cons field rest ih =>
    obtain ⟨k, v⟩ := field
    rw [lookup_cons_eq_ite] at h
    rw [assign]
    by_cases hk : k = key
    · rw [if_pos hk.symm] at h
      rw [if_pos (beq_iff_eq.2 hk), Option.some.inj h]
    · rw [if_neg (Ne.symm hk)] at h
      rw [if_neg (by simpa using hk), ih h]

theorem assign_assign (key : String) (value value' : α) (fields : List (String × α)) :
    assign key value' (assign key value fields) = assign key value' fields := by
  induction fields with
  | nil => simp [assign]
  | cons field rest ih =>
    obtain ⟨k, v⟩ := field
    by_cases hk : (k == key) = true
    · simp [assign, hk]
    · simp [assign, hk, ih]

/-- A new key goes behind the others, and a key that is there keeps its place. -/
theorem keysOf_assign (key : String) (value : α) (fields : List (String × α)) :
    keysOf (assign key value fields) =
      keysOf fields ++ if key ∈ keysOf fields then [] else [key] := by
  by_cases hkey : key ∈ keysOf fields
  · rw [if_pos hkey, List.append_nil]
    induction fields with
    | nil => cases hkey
    | cons field rest ih =>
      obtain ⟨k, v⟩ := field
      rw [assign]
      split
      · rfl
      · next hk =>
        have hrest : key ∈ keysOf rest := by
          rcases List.mem_cons.1 hkey with heq | hrest
          · exact absurd (beq_iff_eq.2 heq.symm) hk
          · exact hrest
        rw [keysOf_cons, keysOf_cons, ih hrest]
  · rw [if_neg hkey, assign_of_not_mem hkey, keysOf_append]
    rfl

end Fields

/-! ### Paths in values -/

namespace Value

/-- The fields of a record; other values have none. -/
def fields : Value → List (String × Value)
  | record fields => fields
  | _ => []

/-- The value at the end of a path of keys. -/
def at? (v : Value) : List String → Option Value
  | [] => some v
  | key :: rest => (v.fields.lookup key).bind (·.at? rest)

/-- Records inside one another, one under each key of a path, the last one empty. -/
def levels : List String → Value
  | [] => record []
  | key :: rest => record [(key, levels rest)]

/-- A value was put at the end of a path: it stands there, and what is neither on the path nor behind it
is as before. Each level above the end is a record, was one if it was there at all, and has its keys in
the old order, with the next key of the path behind them if that is new. -/
structure PlacedAt (path : List String) (v before after : Value) : Prop where
  placed : after.at? path = some v
  apart : ∀ other, ¬path <+: other → ¬other <+: path → after.at? other = before.at? other
  above : ∀ level key, level ++ [key] <+: path → ∃ old new,
    (before.at? level).getD (record []) = record old ∧ after.at? level = some (record new) ∧
      keysOf new = keysOf old ++ if key ∈ keysOf old then [] else [key]

section Paths

variable {key : String} {path : List String} {v after : Value} {old : List (String × Value)}

theorem at?_record (key : String) (path : List String) (old : List (String × Value)) :
    (record old).at? (key :: path) = (old.lookup key).bind (·.at? path) := rfl

theorem at?_empty (hpath : path ≠ []) : (record []).at? path = none := by
  cases path with
  | nil => exact absurd rfl hpath
  | cons key rest => rfl

/-- Behind a key that is missing there is as much as in an empty record. -/
theorem getD_at?_record (key : String) (path : List String) (old : List (String × Value)) :
    ((record old).at? (key :: path)).getD (record []) =
      (((old.lookup key).getD (record [])).at? path).getD (record []) := by
  rw [at?_record]
  cases old.lookup key with
  | some w => rfl
  | none => cases path <;> rfl

theorem PlacedAt.nil (v before : Value) : PlacedAt [] v before v where
  placed := rfl
  apart other hother := absurd (List.nil_prefix) hother
  above level key h := by simp at h

/-- What was put behind a key of a record was put behind the key into the record. -/
theorem PlacedAt.cons (h : PlacedAt path v ((old.lookup key).getD (record [])) after) :
    PlacedAt (key :: path) v (record old) (record (assign key after old)) where
  placed := by
    rw [at?_record, lookup_assign, if_pos rfl]
    exact h.placed
  apart other hbehind hbefore := by
    obtain _ | ⟨k, rest⟩ := other
    · exact absurd List.nil_prefix hbefore
    rw [at?_record, at?_record, lookup_assign]
    by_cases hk : k = key
    · subst hk
      rw [List.prefix_cons_inj] at hbehind hbefore
      have hrest : rest ≠ [] := fun hnil => hbefore (hnil ▸ List.nil_prefix)
      rw [if_pos rfl, Option.bind_some, h.apart rest hbehind hbefore]
      cases old.lookup k with
      | some w => rfl
      | none => exact at?_empty hrest
    · rw [if_neg hk]
  above level next hlevel := by
    obtain _ | ⟨k, rest⟩ := level
    · obtain rfl : next = key := (List.cons_prefix_cons.1 hlevel).1
      exact ⟨old, _, rfl, rfl, keysOf_assign next after old⟩
    · obtain ⟨rfl, hrest⟩ := List.cons_prefix_cons.1 hlevel
      obtain ⟨was, now, hwas, hnow, hkeys⟩ := h.above rest next hrest
      refine ⟨was, now, (getD_at?_record k rest old).trans hwas, ?_, hkeys⟩
      rw [at?_record, lookup_assign, if_pos rfl]
      exact hnow

end Paths
end Value

/-! ### Trees -/

namespace Bag
open Value

/-- A bag with its records in their places. -/
inductive Tree where
  | record (grows : Bool) (entries : List (String × Tree))
  | bare (v : Value) (h : v.isRecord = false)

namespace Tree

/-- A record that a missing key is given. -/
def new : Tree := record true []

mutual
def plain : Tree → Value
  | record _ entries => .record (plainEntries entries)
  | bare v _ => v

def plainEntries : List (String × Tree) → List (String × Value)
  | [] => []
  | (k, t) :: rest => (k, t.plain) :: plainEntries rest
end

mutual
/-- A value that is built. -/
def ofValue : Value → Tree
  | .record fields => record false (ofFields fields)
  | .null => bare .null isRecord_null
  | .truth b => bare (.truth b) (isRecord_truth b)
  | .integer n => bare (.integer n) (isRecord_integer n)
  | .decimal x => bare (.decimal x) (isRecord_decimal x)
  | .text s => bare (.text s) (isRecord_text s)
  | .list items => bare (.list items) (isRecord_list items)

def ofFields : List (String × Value) → List (String × Tree)
  | [] => []
  | (k, v) :: rest => (k, ofValue v) :: ofFields rest
end

/-- What is under a key; a record that grows is given one there if nothing is. -/
def child (key : String) : Tree → Except Fault Tree
  | bare v _ => .error (noKey v)
  | record grows entries => match entries.lookup key with
    | some t => .ok t
    | none => if grows then .ok new else .error (.missingKey key)

/-- A record with something else under a key. -/
def withChild (t : Tree) (key : String) (c : Tree) : Tree :=
  match t with
  | record grows entries => record grows (assign key c entries)
  | bare v h => bare v h

/-- Follows keys and changes what is under the last of them; and whether that worked. -/
def follow (change : Tree → Tree × Option Fault) : List String → Tree → Tree × Option Fault
  | [], t => change t
  | key :: rest, t => match t.child key with
    | .error f => (t, some f)
    | .ok c => (t.withChild key (follow change rest c).1, (follow change rest c).2)

def get (path : List String) (t : Tree) : Tree × Option Fault := follow (fun t => (t, none)) path t

/-- Puts a tree under a key. -/
def put (key : String) (c : Tree) : Tree → Tree × Option Fault
  | bare v h => (bare v h, some (noPlace v))
  | record grows entries => (record grows (assign key c entries), none)

variable {t c : Tree} {key : String} {path : List String} {f : Fault}
  {change : Tree → Tree × Option Fault}

mutual
theorem plain_ofValue : (v : Value) → (ofValue v).plain = v
  | .record fields => by rw [ofValue, plain, plainEntries_ofFields fields]
  | .null | .truth _ | .integer _ | .decimal _ | .text _ | .list _ => rfl

theorem plainEntries_ofFields : (fields : List (String × Value)) → plainEntries (ofFields fields) = fields
  | [] => rfl
  | (k, v) :: rest => by rw [ofFields, plainEntries, plain_ofValue v, plainEntries_ofFields rest]
end

theorem follow_of_child_error (h : t.child key = .error f) :
    follow change (key :: path) t = (t, some f) := by
  rw [follow, h]

theorem follow_of_child_ok (h : t.child key = .ok c) : follow change (key :: path) t =
    (t.withChild key (follow change path c).1, (follow change path c).2) := by
  rw [follow, h]

end Tree
end Bag
end SettingsHarvest
