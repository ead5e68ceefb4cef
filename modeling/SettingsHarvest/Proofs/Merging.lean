import SettingsHarvest.Datum
import SettingsHarvest.Proofs.Nix.Numbers

/-! Mappings laid over one another.

What a merge holds is told path by path: the upper mapping's datum wherever it has one, unless both have a
mapping there, and the lower mapping's datum wherever the upper one has nothing to say. The keys of the
lower mapping come first, in their order, and then the new ones in theirs. There is just one mapping like
that (`merge_path_by_path`), and laying the same mapping over it again changes nothing. -/
namespace SettingsHarvest

/-! ### Keys -/

/-- What tells keys apart: numbers and truth values by the number they are equal to. -/
inductive KeyValue where
  | null
  | number (q : ℚ)
  | infinite (negative : Bool)
  | nan
  | text (s : String)
  | other (shown : String)

def Binary64.keyValue : Binary64 → KeyValue
  | finite s m e => .number (signed s m * 2 ^ e)
  | infinite s => .infinite s
  | nan => .nan

namespace Datum

/-- What a datum is as a key; lists and mappings are never keys. -/
def keyValue? : Datum → Option KeyValue
  | null => some .null
  | truth b => some (.number (if b then 1 else 0))
  | integer n => some (.number n)
  | decimal x => some x.keyValue
  | text s => some (.text s)
  | other _ shown _ => some (.other shown)
  | list _ | mapping _ => none

end Datum

namespace Binary64

theorem inUnits_eq {s : Bool} {m : Nat} {x e : Int} (h : e ≤ x) :
    (inUnits s m x e : ℚ) * 2 ^ e = signed s m * 2 ^ x := by
  obtain ⟨k, rfl⟩ := Int.le.dest h
  have hk : (e + k - e).toNat = k := by omega
  have htwo : (2 : ℚ) ^ (e + (k : Int)) = 2 ^ e * 2 ^ k := by rw [zpow_add₀ two_ne_zero, zpow_natCast]
  rw [inUnits, hk, htwo]
  cases s <;> simp [signed, cast_twoTo] <;> ring

theorem sameValue_iff {x y : Binary64} :
    x.sameValue y = true ↔ x ≠ .nan ∧ x.keyValue = y.keyValue := by
  cases x with
  | finite s m e =>
    cases y with
    | finite t n e' =>
      have hpos : (0 : ℚ) < 2 ^ min e e' := by positivity
      rw [sameValue, beq_iff_eq, keyValue, keyValue, KeyValue.number.injEq, ← inUnits_eq (min_le_left e e'),
        ← inUnits_eq (min_le_right e e'), mul_left_inj' hpos.ne', Int.cast_inj]
      simp
    | infinite | nan => simp [sameValue, keyValue]
  | infinite s => cases y <;> simp [sameValue, keyValue]
  | nan => simp [sameValue]

theorem toInt?_eq_iff {x : Binary64} {n : Int} : x.toInt? = some n ↔ x.keyValue = .number n := by
  cases x with
  | infinite | nan => simp [toInt?, keyValue]
  | finite s m e =>
    rw [Nix.toInt?_eq_some_iff, keyValue, KeyValue.number.injEq]
    constructor
    · rintro ⟨a, ha, rfl⟩
      cases s <;> simp [signed, ha]
    · intro h
      have hnonneg : (0 : ℚ) ≤ m * 2 ^ e := by positivity
      refine ⟨n.natAbs, ?_, ?_⟩
      · rw [Nat.cast_natAbs, Int.cast_abs, ← h]
        cases s <;> simp [signed, abs_mul]
      · cases s with
        | false =>
          have hn : 0 ≤ n := by
            rw [← Int.cast_nonneg_iff (R := ℚ), ← h]
            simpa [signed] using hnonneg
          simp [signed, abs_of_nonneg hn]
        | true =>
          have hn : n ≤ 0 := by
            rw [← Int.cast_nonpos (R := ℚ), ← h]
            simpa [signed] using hnonneg
          simp [signed, abs_of_nonpos hn]

theorem keyValue_ne (x : Binary64) :
    x.keyValue ≠ .null ∧ (∀ s, x.keyValue ≠ .text s) ∧ ∀ s, x.keyValue ≠ .other s := by
  cases x <;> simp [keyValue]

end Binary64

/-- What is equal to a whole number, from the two sides. -/
theorem Value.agrees_whole {x : Binary64} {w : Value} {n : Int} (hw : w.asInteger? = some n)
    (hdecimal : ∀ y, w ≠ .decimal y) :
    ((Value.decimal x).agrees w = true ↔ x.keyValue = .number n) ∧
      (w.agrees (.decimal x) = true ↔ .number n = x.keyValue) := by
  rw [eq_comm (a := KeyValue.number n), ← Binary64.toInt?_eq_iff]
  cases w with
  | decimal y => exact absurd rfl (hdecimal y)
  | truth b | integer m =>
    rw [asInteger?, Option.some_inj] at hw
    subst hw
    cases hx : x.toInt? with
    | none => simp [agrees, asInteger?, hx]
    | some k => simp [agrees, asInteger?, hx, eq_comm (a := k)]
  | null | text | list | record => cases hw

namespace Datum

variable {a b c d k k' : Datum} {base other : List (Datum × Datum)}

theorem sameKey_decimal {x y : Binary64} :
    (decimal x).sameKey (.decimal y) = true ↔ x.keyValue = y.keyValue := by
  by_cases hnan : x = .nan ∧ y = .nan
  · simp [hnan, sameKey]
  · have hsame : (decimal x).sameKey (.decimal y) = x.sameValue y := by
      cases x <;> cases y <;> first | rfl | exact absurd ⟨rfl, rfl⟩ hnan
    rw [hsame, Binary64.sameValue_iff, and_iff_right_iff_imp]
    rintro hvalue rfl
    cases y with
    | nan => exact hnan ⟨rfl, rfl⟩
    | finite | infinite => cases hvalue

/-- Keys are the same if they are of one value. -/
theorem sameKey_iff : a.sameKey b = true ↔ a.isKey = true ∧ a.keyValue? = b.keyValue? := by
  cases a with
  | decimal x =>
    have hne := x.keyValue_ne
    cases b with
    | decimal y => simp [sameKey_decimal, keyValue?, isKey]
    | truth b =>
      have hagrees := (Value.agrees_whole (x := x) (w := .truth b) rfl (by simp)).1
      cases b <;> simpa [sameKey, scalar?, keyValue?, isKey] using hagrees
    | integer n =>
      have hagrees := (Value.agrees_whole (x := x) (w := .integer n) rfl (by simp)).1
      simpa [sameKey, scalar?, keyValue?, isKey] using hagrees
    | null | text | list | mapping | other =>
      simp [sameKey, scalar?, Value.agrees, Value.asInteger?, keyValue?, isKey, hne]
  | truth t =>
    cases b with
    | decimal x =>
      have hagrees := (Value.agrees_whole (x := x) (w := .truth t) rfl (by simp)).2
      cases t <;> simpa [sameKey, scalar?, keyValue?, isKey] using hagrees
    | truth u =>
      cases t <;> cases u <;> simp [sameKey, scalar?, Value.agrees, Value.asInteger?, keyValue?, isKey]
    | null | integer | text | list | mapping | other =>
      cases t <;>
        simp [sameKey, scalar?, Value.agrees, Value.asInteger?, keyValue?, isKey, ← Int.cast_inj (α := ℚ)]
  | integer n =>
    cases b with
    | decimal x =>
      have hagrees := (Value.agrees_whole (x := x) (w := .integer n) rfl (by simp)).2
      simpa [sameKey, scalar?, keyValue?, isKey] using hagrees
    | truth t =>
      cases t <;> simp [sameKey, scalar?, Value.agrees, Value.asInteger?, keyValue?, isKey]
    | null | integer | text | list | mapping | other =>
      simp [sameKey, scalar?, Value.agrees, Value.asInteger?, keyValue?, isKey]
  | null | text | list | mapping | other =>
    cases b with
    | decimal x =>
      have hne := x.keyValue_ne
      simp [sameKey, scalar?, Value.agrees, Value.asInteger?, keyValue?, isKey, hne.1.symm,
        (hne.2.1 _).symm, (hne.2.2 _).symm]
    | null | truth | integer | text | list | mapping | other =>
      simp [sameKey, scalar?, Value.agrees, Value.asInteger?, keyValue?, isKey]

theorem sameKey_self (h : k.isKey = true) : k.sameKey k = true := sameKey_iff.2 ⟨h, rfl⟩

theorem sameKey_congr (h : k.sameKey k' = true) : a.sameKey k = a.sameKey k' := by
  rw [Bool.eq_iff_iff, sameKey_iff, sameKey_iff, (sameKey_iff.1 h).2]

theorem sameKey_comm (hk : k.isKey = true) (h : k'.sameKey k = true) : k.sameKey k' = true :=
  sameKey_iff.2 ⟨hk, (sameKey_iff.1 h).2.symm⟩

/-! ### Entries -/

theorem lookup?_cons (e : Datum × Datum) :
    lookup? k (e :: base) = if e.1.sameKey k then some e.2 else lookup? k base := by
  rw [lookup?, lookup?, List.find?_cons]
  cases e.1.sameKey k <;> rfl

theorem lookup?_congr (h : k.sameKey k' = true) : lookup? k base = lookup? k' base := by
  induction base with
  | nil => rfl
  | cons e rest ih => rw [lookup?_cons, lookup?_cons, ih, sameKey_congr h]

/-- Whether there is something under a key is for the keys alone to say. -/
theorem lookup?_isNone (h : other.map (·.1) = base.map (·.1)) :
    (lookup? k other).isNone = (lookup? k base).isNone := by
  induction base generalizing other with
  | nil => rw [List.map_eq_nil_iff.1 h]
  | cons e rest ih =>
    obtain _ | ⟨e', others⟩ := other
    · cases h
    obtain ⟨hkey, hothers⟩ : e'.1 = e.1 ∧ others.map (·.1) = rest.map (·.1) := List.cons_eq_cons.1 h
    rw [lookup?_cons, lookup?_cons, hkey]
    split
    · rfl
    · exact ih hothers

/-- Placing a datum changes what is under its key, and nothing else. -/
theorem lookup?_place (h : k.isKey = true) :
    lookup? k' (place k d base) = if k.sameKey k' then some d else lookup? k' base := by
  induction base with
  | nil => rw [place, lookup?_cons]
  | cons e rest ih =>
    rw [place]
    cases he : e.1.sameKey k with
    | true =>
      have hsame : e.1.sameKey k' = k.sameKey k' := by
        rw [Bool.eq_iff_iff, sameKey_iff, sameKey_iff, (sameKey_iff.1 he).2, h, (sameKey_iff.1 he).1]
      rw [if_pos rfl, lookup?_cons, lookup?_cons, hsame]
      split <;> rfl
    | false =>
      rw [if_neg (by simp), lookup?_cons, lookup?_cons, ih]
      by_cases hk : k.sameKey k' = true
      · rw [if_pos hk, if_pos hk, if_neg fun hother => ?_]
        rw [sameKey_congr hk, hother] at he
        cases he
      · rw [if_neg hk, if_neg hk]

/-- A datum is placed where its key is, or behind all others. -/
theorem keys_place : (place k d base).map (·.1) =
    base.map (·.1) ++ if (lookup? k base).isNone then [k] else [] := by
  induction base with
  | nil => rfl
  | cons e rest ih =>
    rw [place, lookup?_cons]
    cases e.1.sameKey k with
    | true => simp
    | false => simp [ih]

theorem mem_of_lookup (h : lookup? k base = some d) : ∃ e ∈ base, e.2 = d := by
  obtain ⟨e, he, rfl⟩ := Option.map_eq_some_iff.1 h
  exact ⟨e, List.mem_of_find?_eq_some he, rfl⟩

theorem lookup?_ne_none (hkey : k.isKey = true) (hk : k ∈ base.map (·.1)) : lookup? k base ≠ none := by
  induction base with
  | nil => cases hk
  | cons e rest ih =>
    rw [lookup?_cons]
    rcases List.mem_cons.1 hk with rfl | hk
    · rw [if_pos (sameKey_self hkey)]
      simp
    · split
      · simp
      · exact ih hk

/-! ### Mappings -/

theorem eq_mapping_of_entries {entries : List (Datum × Datum)} (h : d.entries? = some entries) :
    d = mapping entries := by
  cases d with
  | mapping inner =>
    cases h
    rfl
  | null | truth | integer | decimal | text | list | other => cases h

mutual
/-- A datum in which no mapping within mappings has a key twice. -/
def KeysApart : Datum → Prop
  | mapping entries => EntriesApart entries
  | _ => True

/-- Entries under keys that are different, with data of that sort. -/
def EntriesApart : List (Datum × Datum) → Prop
  | [] => True
  | (k, d) :: rest => k.isKey = true ∧ lookup? k rest = none ∧ KeysApart d ∧ EntriesApart rest
end

theorem KeysApart.of_lookup {entries : List (Datum × Datum)} (h : EntriesApart entries)
    (hd : lookup? k entries = some d) : d.KeysApart := by
  induction entries with
  | nil => cases hd
  | cons e rest ih =>
    obtain ⟨-, -, hfirst, hrest⟩ := h
    rw [lookup?_cons] at hd
    split at hd
    · cases hd
      exact hfirst
    · exact ih hrest hd

theorem EntriesApart.isKey {entries : List (Datum × Datum)} (h : EntriesApart entries)
    (hk : k ∈ entries.map (·.1)) : k.isKey = true := by
  induction entries with
  | nil => cases hk
  | cons e rest ih =>
    obtain ⟨hkey, -, -, hrest⟩ := h
    rcases List.mem_cons.1 hk with rfl | hk
    exacts [hkey, ih hrest hk]

/-- Entries are told by their keys and what is under each. -/
theorem entries_ext {entries : List (Datum × Datum)} (h : EntriesApart entries)
    (hkeys : other.map (·.1) = entries.map (·.1))
    (hsame : ∀ k, lookup? k other = lookup? k entries) : other = entries := by
  induction entries generalizing other with
  | nil => exact List.map_eq_nil_iff.1 hkeys
  | cons e rest ih =>
    obtain ⟨key, d⟩ := e
    obtain ⟨hkey, hfresh, -, hrest⟩ := h
    obtain _ | ⟨⟨key', d'⟩, others⟩ := other
    · cases hkeys
    obtain ⟨rfl, hothers⟩ : key' = key ∧ others.map (·.1) = rest.map (·.1) := List.cons_eq_cons.1 hkeys
    have hfirst := hsame key'
    rw [lookup?_cons, lookup?_cons, if_pos (sameKey_self hkey), if_pos (sameKey_self hkey)] at hfirst
    cases hfirst
    refine congrArg _ (ih hrest hothers fun k => ?_)
    by_cases hk : key'.sameKey k = true
    · have hnone : lookup? k rest = none := (lookup?_congr hk).symm.trans hfresh
      rw [hnone, ← Option.isNone_iff_eq_none, lookup?_isNone hothers, hnone, Option.isNone_none]
    · have hrest := hsame k
      rwa [lookup?_cons, lookup?_cons, if_neg hk, if_neg hk] at hrest

/-- The datum at the end of a path of keys. -/
def at? (d : Datum) : List Datum → Option Datum
  | [] => some d
  | k :: rest => match d.entries?.bind (lookup? k) with
    | some inner => inner.at? rest
    | none => none

theorem at?_mapping (entries : List (Datum × Datum)) (path : List Datum) :
    (mapping entries).at? (k :: path) = (lookup? k entries).bind (·.at? path) := by
  rw [at?, entries?, Option.bind_some]
  cases lookup? k entries <;> rfl

theorem at?_key {entries : List (Datum × Datum)} : (mapping entries).at? [k] = lookup? k entries := by
  rw [at?_mapping]
  cases lookup? k entries <;> rfl

theorem at?_of_not_mapping {path : List Datum} (h : d.entries? = none) : d.at? (k :: path) = none := by
  rw [at?, h, Option.bind_none]

theorem at?_cons (d k : Datum) (path : List Datum) :
    d.at? (k :: path) = (d.at? [k]).bind (·.at? path) := by
  rw [at?, at?]
  cases d.entries?.bind (lookup? k) <;> rfl

theorem at?_append (d : Datum) (path rest : List Datum) :
    d.at? (path ++ rest) = (d.at? path).bind (·.at? rest) := by
  induction path generalizing d with
  | nil => rfl
  | cons k path ih =>
    rw [List.cons_append, at?_cons, at?_cons d k path, Option.bind_assoc]
    exact congrArg _ (funext fun inner => ih inner)

theorem KeysApart.of_at {path : List Datum} (h : d.KeysApart) (hat : d.at? path = some c) : c.KeysApart := by
  induction path generalizing d with
  | nil =>
    cases hat
    exact h
  | cons k path ih =>
    cases d with
    | mapping entries =>
      rw [at?_mapping] at hat
      obtain ⟨inner, hinner, hat⟩ := Option.bind_eq_some_iff.1 hat
      exact ih (KeysApart.of_lookup h hinner) hat
    | null | truth | integer | decimal | text | list | other => cases hat

/-! ### Merging -/

theorem mapping_or_not (below : Option Datum) :
    below.bind entries? = none ∨ ∃ base, below = some (mapping base) := by
  refine (Option.eq_none_or_eq_some (below.bind entries?)).imp_right ?_
  rintro ⟨base, hbase⟩
  obtain ⟨lower, rfl, hentries⟩ := Option.bind_eq_some_iff.1 hbase
  exact ⟨base, congrArg some (eq_mapping_of_entries hentries)⟩

theorem atop_of_not_mapping {below : Option Datum} (h : d.entries? = none) : atop below d = d := by
  cases d with
  | mapping entries => cases h
  | null | truth | integer | decimal | text | list | other => rfl

theorem atop_of_below {below : Option Datum} (h : below.bind entries? = none) : atop below d = d := by
  cases d with
  | mapping entries =>
    rw [atop]
    rintro base rfl
    cases h
  | null | truth | integer | decimal | text | list | other => rfl

theorem atop_mapping (entries : List (Datum × Datum)) :
    atop (some (mapping base)) (mapping entries) = mapping (mergeEntries base entries) := by
  rw [atop]

theorem entries?_atop_eq_none {below : Option Datum} : (atop below d).entries? = none ↔ d.entries? = none := by
  rcases mapping_or_not below with hbelow | ⟨base, rfl⟩
  · rw [atop_of_below hbelow]
  · cases d with
    | mapping entries => simp [atop_mapping, entries?]
    | null | truth | integer | decimal | text | list | other => rfl

theorem lookup?_mergeEntries {entries : List (Datum × Datum)} (h : EntriesApart entries) :
    lookup? k (mergeEntries base entries) = match lookup? k entries with
      | some d => some (atop (lookup? k base) d)
      | none => lookup? k base := by
  induction entries generalizing base with
  | nil => rw [mergeEntries]; rfl
  | cons e rest ih =>
    obtain ⟨key, d⟩ := e
    obtain ⟨hkey, hfresh, -, hrest⟩ := h
    rw [mergeEntries, ih hrest, lookup?_place hkey, lookup?_cons]
    by_cases hsame : key.sameKey k = true
    · rw [if_pos hsame, if_pos hsame, ← lookup?_congr hsame, hfresh, lookup?_congr hsame]
    · rw [if_neg hsame, if_neg hsame]

/-- No key of the upper mapping is lost. -/
theorem lookup?_atop_ne_none {below : Option Datum} {entries lower : List (Datum × Datum)}
    (h : EntriesApart entries) (hlower : atop below (mapping entries) = mapping lower)
    (hk : lookup? k entries ≠ none) : lookup? k lower ≠ none := by
  obtain ⟨d, hd⟩ := Option.ne_none_iff_exists'.1 hk
  rcases mapping_or_not below with hbelow | ⟨base, rfl⟩
  · rw [atop_of_below hbelow] at hlower
    cases hlower
    exact hk
  · rw [atop_mapping] at hlower
    cases hlower
    simp [lookup?_mergeEntries h, hd]

/-- The keys of what is below come first. -/
theorem keys_mergeEntries {entries : List (Datum × Datum)} (h : EntriesApart entries) :
    (mergeEntries base entries).map (·.1) = base.map (·.1) ++
      (entries.map (·.1)).filter fun k => (lookup? k base).isNone := by
  induction entries generalizing base with
  | nil => simp [mergeEntries]
  | cons e rest ih =>
    obtain ⟨key, d⟩ := e
    obtain ⟨hkey, hfresh, -, hrest⟩ := h
    have hothers : ∀ other ∈ rest.map (·.1),
        (lookup? other (place key (atop (lookup? key base) d) base)).isNone =
          (lookup? other base).isNone := by
      intro other hother
      rw [lookup?_place hkey, if_neg fun hsame => ?_]
      exact lookup?_ne_none (hrest.isKey hother) hother ((lookup?_congr hsame).symm.trans hfresh)
    rw [mergeEntries, ih hrest, keys_place, List.filter_congr hothers, List.append_assoc,
      List.map_cons, List.filter_cons]
    split <;> rfl

/-- What only has keys of what is below adds none. -/
theorem keys_mergeEntries_of_held {entries : List (Datum × Datum)}
    (h : ∀ e ∈ entries, lookup? e.1 base ≠ none) :
    (mergeEntries base entries).map (·.1) = base.map (·.1) := by
  induction entries generalizing base with
  | nil => rw [mergeEntries]
  | cons e rest ih =>
    obtain ⟨key, d⟩ := e
    obtain ⟨hkey, hrest⟩ := List.forall_mem_cons.1 h
    have hkeys : (Datum.place key (atop (lookup? key base) d) base).map (·.1) = base.map (·.1) := by
      rw [keys_place, Option.isNone_eq_false_iff.2 (Option.isSome_iff_ne_none.2 hkey)]
      exact List.append_nil _
    rw [mergeEntries, ih fun e he hnone => hrest e he ?_, hkeys]
    rw [← Option.isNone_iff_eq_none, ← lookup?_isNone hkeys, hnone, Option.isNone_none]

theorem EntriesApart.place {entries : List (Datum × Datum)} (h : EntriesApart entries) (hk : k.isKey = true)
    (hd : d.KeysApart) : EntriesApart (place k d entries) := by
  induction entries with
  | nil => exact ⟨hk, rfl, hd, trivial⟩
  | cons e rest ih =>
    obtain ⟨hkey, hfresh, hfirst, hrest⟩ := h
    rw [Datum.place]
    split
    · exact ⟨hkey, hfresh, hd, hrest⟩
    · next hother =>
      refine ⟨hkey, ?_, hfirst, ih hrest⟩
      rw [lookup?_place hk, if_neg fun hsame => hother (sameKey_comm hkey hsame), hfresh]

/-- Induction on the data that are entries of a datum. -/
theorem induction_entries {P : Datum → Prop}
    (step : ∀ d : Datum, (∀ entries ∈ d.entries?, ∀ e ∈ entries, P e.2) → P d) (d : Datum) : P d :=
  step d fun _entries _hentries e _he => induction_entries step e.2
termination_by sizeOf d
decreasing_by
  cases d with
  | mapping inner =>
    cases _hentries
    have hsize := List.sizeOf_lt_of_mem _he
    obtain ⟨k, d⟩ := e
    simp only [mapping.sizeOf_spec, Prod.mk.sizeOf_spec] at hsize ⊢
    omega
  | null | truth | integer | decimal | text | list | other => cases _hentries

theorem EntriesApart.mergeEntries {entries : List (Datum × Datum)} (hbase : EntriesApart base)
    (h : EntriesApart entries)
    (hatop : ∀ e ∈ entries, ∀ below : Option Datum, (∀ lower ∈ below, lower.KeysApart) →
      e.2.KeysApart → (atop below e.2).KeysApart) : EntriesApart (mergeEntries base entries) := by
  induction entries generalizing base with
  | nil => rwa [Datum.mergeEntries]
  | cons e rest ih =>
    obtain ⟨key, d⟩ := e
    obtain ⟨hkey, -, hd, hrest⟩ := h
    rw [Datum.mergeEntries]
    refine ih (hbase.place hkey ?_) hrest fun e he => hatop e (List.mem_cons_of_mem _ he)
    exact hatop (key, d) List.mem_cons_self _ (fun lower hlower => KeysApart.of_lookup hbase hlower) hd

theorem KeysApart.atop {d : Datum} {below : Option Datum} (hd : d.KeysApart)
    (hbelow : ∀ lower ∈ below, lower.KeysApart) : (atop below d).KeysApart := by
  induction d using induction_entries generalizing below with
  | step d ih =>
    rcases mapping_or_not below with hnot | ⟨base, rfl⟩
    · rwa [atop_of_below hnot]
    · cases d with
      | mapping entries =>
        rw [atop_mapping]
        exact EntriesApart.mergeEntries (hbelow _ rfl) hd fun e he below hbelow hd =>
          ih entries rfl e he hd hbelow
      | null | truth | integer | decimal | text | list | other => trivial

theorem at?_mergeEntries {entries : List (Datum × Datum)} {path : List Datum}
    (h : EntriesApart entries) :
    (mapping (mergeEntries base entries)).at? (k :: path) = match lookup? k entries with
      | some d => (atop (lookup? k base) d).at? path
      | none => (mapping base).at? (k :: path) := by
  rw [at?_mapping, lookup?_mergeEntries h]
  cases lookup? k entries with
  | some d => rfl
  | none => rw [at?_mapping]

/-- What is at a path of the upper datum lies over what is at the same path of the lower one. -/
theorem at?_atop {below : Option Datum} {path : List Datum} (h : d.KeysApart) (hat : d.at? path = some c) :
    (atop below d).at? path = some (atop (below.bind (·.at? path)) c) := by
  induction path generalizing below d with
  | nil =>
    cases hat
    cases below <;> rfl
  | cons k path ih =>
    rcases mapping_or_not below with hnot | ⟨base, rfl⟩
    · have hnothing : below.bind (·.at? (k :: path)) = none := by
        cases below with
        | none => rfl
        | some lower => exact at?_of_not_mapping hnot
      rw [atop_of_below hnot, hat, hnothing, atop_of_below rfl]
    · cases d with
      | mapping entries =>
        rw [at?_mapping] at hat
        obtain ⟨inner, hinner, hat⟩ := Option.bind_eq_some_iff.1 hat
        rw [atop_mapping, at?_mergeEntries h, hinner]
        dsimp only
        rw [ih (KeysApart.of_lookup h hinner) hat, Option.bind_some, at?_mapping]
      | null | truth | integer | decimal | text | list | other => cases hat

end Datum

/-! ### What a merge holds -/

/-- What a mapping holds that lies over another, path by path. -/
structure LaidOver (base override merged : Datum) : Prop where
  /-- The upper datum counts, unless there are mappings on both sides. -/
  replaced : ∀ path d, override.at? path = some d →
    d.entries? = none ∨ (base.at? path).bind Datum.entries? = none → merged.at? path = some d
  /-- Of two mappings all keys count: those of the lower one, in their order, then the new ones. -/
  joined : ∀ path lower upper, base.at? path = some (.mapping lower) →
    override.at? path = some (.mapping upper) → ∃ entries, merged.at? path = some (.mapping entries) ∧
      entries.map (·.1) = lower.map (·.1) ++
        (upper.map (·.1)).filter fun k => (Datum.lookup? k lower).isNone
  /-- The lower mapping counts where the upper one has no such key. -/
  kept : ∀ path lower upper, base.at? path = some (.mapping lower) →
    override.at? path = some (.mapping upper) → ∀ k rest, Datum.lookup? k upper = none →
      merged.at? (path ++ k :: rest) = base.at? (path ++ k :: rest)

namespace Datum

variable {base override merged : Datum}

theorem laidOver_merge (h : override.KeysApart) : LaidOver base override (base.merge override) where
  replaced path d hat hnot := by
    rw [merge, at?_atop h hat, Option.bind_some]
    rcases hnot with hnot | hnot
    · rw [atop_of_not_mapping hnot]
    · rw [atop_of_below hnot]
  joined path lower upper hlower hupper := by
    refine ⟨mergeEntries lower upper, ?_, keys_mergeEntries (h.of_at hupper)⟩
    rw [merge, at?_atop h hupper, Option.bind_some, hlower, atop_mapping]
  kept path lower upper hlower hupper k rest hnone := by
    rw [merge, at?_append, at?_append, at?_atop h hupper, Option.bind_some, Option.bind_some, hlower,
      Option.bind_some, atop_mapping, at?_mergeEntries (h.of_at hupper), hnone]

/-- What was laid over something lies over the result as well. -/
theorem laidOver_merge_again (h : override.KeysApart) :
    LaidOver (base.merge override) override (base.merge override) where
  replaced path d hat hnot := by
    rw [merge, at?_atop h hat, Option.bind_some, entries?_atop_eq_none, or_self] at hnot
    rw [merge, at?_atop h hat, atop_of_not_mapping hnot]
  joined path lower upper hlower hupper := by
    have hheld : ∀ k ∈ upper.map (·.1), (lookup? k lower).isNone = false := by
      intro k hk
      have hupperk := lookup?_ne_none ((h.of_at hupper : EntriesApart upper).isKey hk) hk
      rw [merge, at?_atop h hupper, Option.some_inj] at hlower
      rw [Option.isNone_eq_false_iff, Option.isSome_iff_ne_none]
      exact lookup?_atop_ne_none (h.of_at hupper) hlower hupperk
    refine ⟨lower, hlower, ?_⟩
    rw [List.filter_eq_nil_iff.2 fun k hk => by simp [hheld k hk], List.append_nil]
  kept path lower upper hlower hupper k rest hnone := rfl

end Datum

theorem LaidOver.at_path {base override merged lower upper inner : Datum} {path : List Datum}
    (h : LaidOver base override merged) (hbase : base.at? path = some lower)
    (hoverride : override.at? path = some upper) (hmerged : merged.at? path = some inner) :
    LaidOver lower upper inner where
  replaced rest d hat hnot := by
    have hfull := h.replaced (path ++ rest) d
    rw [Datum.at?_append, Datum.at?_append, Datum.at?_append, hbase, hoverride, hmerged] at hfull
    exact hfull hat hnot
  joined rest lower' upper' hlower hupper := by
    have hfull := h.joined (path ++ rest) lower' upper'
    rw [Datum.at?_append, Datum.at?_append, Datum.at?_append, hbase, hoverride, hmerged] at hfull
    exact hfull hlower hupper
  kept rest lower' upper' hlower hupper k more hnone := by
    have hfull := h.kept (path ++ rest) lower' upper'
    rw [Datum.at?_append, Datum.at?_append, hbase, hoverride] at hfull
    have hsame := hfull hlower hupper k more hnone
    rwa [List.append_assoc, Datum.at?_append, Datum.at?_append, hbase, hmerged] at hsame

/-- At each path where the upper datum has something there is something. -/
theorem LaidOver.at_ne_none {base override merged : Datum} (h : LaidOver base override merged)
    {path : List Datum} {d : Datum} (hd : override.at? path = some d) : merged.at? path ≠ none := by
  by_cases hnot : d.entries? = none ∨ (base.at? path).bind Datum.entries? = none
  · simp [h.replaced path d hd hnot]
  · obtain ⟨hupper, hlower⟩ := not_or.1 hnot
    obtain ⟨upper, hupper⟩ := Option.ne_none_iff_exists'.1 hupper
    obtain ⟨lower, hlower⟩ := Option.ne_none_iff_exists'.1 hlower
    obtain ⟨inner, hinner, hlower⟩ := Option.bind_eq_some_iff.1 hlower
    rw [Datum.eq_mapping_of_entries hupper] at hd
    rw [Datum.eq_mapping_of_entries hlower] at hinner
    obtain ⟨entries, hentries, -⟩ := h.joined path lower upper hinner hd
    simp [hentries]

/-- At the end of a path a merge holds what the upper datum has there, laid over the lower one. -/
theorem LaidOver.at_key {base override merged : Datum} (h : LaidOver base override merged) {k d : Datum}
    (hd : override.at? [k] = some d)
    (hinner : ∀ lower inner, LaidOver lower d inner → lower.KeysApart → inner = lower.merge d)
    (hbase : base.KeysApart) : merged.at? [k] = some (Datum.atop (base.at? [k]) d) := by
  obtain ⟨inner, hmerged⟩ := Option.ne_none_iff_exists'.1 (h.at_ne_none hd)
  cases hlower : base.at? [k] with
  | none => rw [h.replaced [k] d hd (.inr (by rw [hlower]; rfl)), Datum.atop_of_below rfl]
  | some lower =>
    rw [hmerged, hinner lower inner (h.at_path hlower hd hmerged) (hbase.of_at hlower), Datum.merge]

/-- There is one datum that lies over another. -/
theorem LaidOver.eq_merge {base override merged : Datum} (h : LaidOver base override merged)
    (hbase : base.KeysApart) (hoverride : override.KeysApart) : merged = base.merge override := by
  induction override using Datum.induction_entries generalizing base merged with
  | step override ih =>
    by_cases hnot : override.entries? = none ∨ base.entries? = none
    · have hwhole : some merged = some override := h.replaced [] override rfl hnot
      rw [Option.some_inj.1 hwhole, Datum.merge]
      rcases hnot with hnot | hnot
      · rw [Datum.atop_of_not_mapping hnot]
      · have hbelow : Datum.atop (some base) override = override := Datum.atop_of_below hnot
        rw [hbelow]
    · obtain ⟨hupper, hlower⟩ := not_or.1 hnot
      obtain ⟨upper, hupper⟩ := Option.ne_none_iff_exists'.1 hupper
      obtain ⟨lower, hlower⟩ := Option.ne_none_iff_exists'.1 hlower
      cases Datum.eq_mapping_of_entries hupper
      cases Datum.eq_mapping_of_entries hlower
      obtain ⟨entries, hentries, hkeys⟩ := h.joined [] lower upper rfl rfl
      cases hentries
      have happart : Datum.EntriesApart (Datum.mergeEntries lower upper) :=
        Datum.EntriesApart.mergeEntries hbase hoverride fun e _ below hbelow hd => hd.atop hbelow
      rw [Datum.merge, Datum.atop_mapping]
      refine congrArg _ (Datum.entries_ext happart
        (hkeys.trans (Datum.keys_mergeEntries hoverride).symm) fun k => ?_)
      rw [← Datum.at?_key, ← Datum.at?_key, Datum.at?_mergeEntries hoverride]
      cases hk : Datum.lookup? k upper with
      | none => exact h.kept [] lower upper rfl rfl k [] hk
      | some d =>
        obtain ⟨e, he, rfl⟩ := Datum.mem_of_lookup hk
        dsimp only
        rw [h.at_key (Datum.at?_key.trans hk) (fun low inner hover hlow =>
          ih upper rfl e he hover hlow (Datum.KeysApart.of_lookup hoverride hk)) hbase, Datum.at?_key]
        rfl

namespace Datum

/-- **A merge of mappings is told path by path, and there is just one like that; merging the same mapping
in once more changes nothing.** -/
theorem merge_path_by_path {base override : List (Datum × Datum)} (hbase : (mapping base).KeysApart)
    (hoverride : (mapping override).KeysApart) :
    (∀ merged, LaidOver (mapping base) (mapping override) merged ↔
      merged = (mapping base).merge (mapping override)) ∧
    ((mapping base).merge (mapping override)).merge (mapping override) =
      (mapping base).merge (mapping override) := by
  have happart : ((mapping base).merge (mapping override)).KeysApart :=
    hoverride.atop fun lower hlower => Option.some_inj.1 hlower ▸ hbase
  refine ⟨fun merged => ⟨fun h => h.eq_merge hbase hoverride, ?_⟩, ?_⟩
  · rintro rfl
    exact laidOver_merge hoverride
  · exact ((laidOver_merge_again hoverride).eq_merge happart hoverride).symm

/-- Mappings that meet mappings, scalars that give way to mappings and the other way round, and new keys. -/
theorem merge_path_by_path_mixed :
    let base := [(text "a", mapping [(text "x", integer 1), (text "y", integer 2)]), (text "s", integer 5),
      (text "m", mapping [(text "q", integer 1)])]
    let override := [(text "new", text "n"), (text "a", mapping [(text "y", mapping [(text "z", null)])]),
      (text "s", mapping [(text "t", truth true)]), (text "m", integer 0)]
    (mapping base).KeysApart ∧ (mapping override).KeysApart ∧
    ∀ merged, LaidOver (mapping base) (mapping override) merged ↔
      merged = mapping [(text "a", mapping [(text "x", integer 1), (text "y", mapping [(text "z", null)])]),
        (text "s", mapping [(text "t", truth true)]), (text "m", integer 0), (text "new", text "n")] := by
  intro base override
  have hbase : (mapping base).KeysApart := by
    simp [base, KeysApart, EntriesApart, isKey, lookup?, sameKey, scalar?, Value.agrees]
  have hoverride : (mapping override).KeysApart := by
    simp [override, KeysApart, EntriesApart, isKey, lookup?, sameKey, scalar?, Value.agrees]
  exact ⟨hbase, hoverride, (merge_path_by_path hbase hoverride).1⟩

end Datum
end SettingsHarvest
