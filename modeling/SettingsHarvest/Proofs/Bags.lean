import Mathlib.Data.List.Nodup
import SettingsHarvest.Proofs.BagRecords
import SettingsHarvest.Proofs.BagTrees

/-! Setting and getting in bags.

While no record stands at two places (`Unshared`), a bag is a tree, and an operation does to it what it
does to the tree (`Follows`): the records of the tree are changed, and all others left alone (`Within`).
What is built for an operation has records of its own, so a bag stays unshared, and operations change its
plain value in one place (`operation_effect`). -/
namespace SettingsHarvest.Bag
open Value

variable {b b' : Bag} {i : Item} {n : Nat} {key : String} {path : List String} {f : Fault}
  {change : Bag → Item → Bag × Option Fault}

/-! ### Records that are not shared -/

mutual
/-- What an item looks like as a tree, with the numbers of the records in it. -/
inductive Shows (records : List Record) : Item → Tree → List Nat → Prop where
  | bare {v : Value} {h : v.isRecord = false} : Shows records (.bare v h) (.bare v h) []
  | record {n : Nat} {r : Record} {entries : List (String × Tree)} {ns : List Nat} :
    records[n]? = some r → ShowAll records r.fields entries ns →
    Shows records (.record n) (.record r.grows entries) (n :: ns)

inductive ShowAll (records : List Record) :
    List (String × Item) → List (String × Tree) → List Nat → Prop where
  | nil : ShowAll records [] [] []
  | cons {k : String} {i : Item} {t : Tree} {fields : List (String × Item)}
    {entries : List (String × Tree)} {ns ms : List Nat} :
    Shows records i t ns → ShowAll records fields entries ms →
    ShowAll records ((k, i) :: fields) ((k, t) :: entries) (ns ++ ms)
end

section Trees

variable {t t' c : Tree} {ns ns' ms : List Nat} {fields : List (String × Item)}
  {entries : List (String × Tree)} {records : List Record}

mutual
theorem Shows.lt {i : Item} {t : Tree} {ns : List Nat} :
    Shows records i t ns → ∀ n ∈ ns, n < records.length
  | .record hr hall, m, hm => by
    rcases List.mem_cons.1 hm with rfl | hm
    · exact (List.getElem?_eq_some_iff.1 hr).1
    · exact hall.lt m hm

theorem ShowAll.lt {fields : List (String × Item)} {entries : List (String × Tree)} {ns : List Nat} :
    ShowAll records fields entries ns → ∀ n ∈ ns, n < records.length
  | .cons h hall, m, hm => (List.mem_append.1 hm).elim (h.lt m) (hall.lt m)
end

mutual
/-- What an item looks like depends on the records in it only. -/
theorem Shows.congr {records' : List Record} {i : Item} {t : Tree} {ns : List Nat} :
    Shows records i t ns → (∀ n ∈ ns, records'[n]? = records[n]?) → Shows records' i t ns
  | .bare, _ => .bare
  | .record hr hall, hsame =>
    .record ((hsame _ List.mem_cons_self).trans hr)
      (hall.congr fun m hm => hsame m (List.mem_cons_of_mem _ hm))

theorem ShowAll.congr {records' : List Record} {fields : List (String × Item)}
    {entries : List (String × Tree)} {ns : List Nat} : ShowAll records fields entries ns →
    (∀ n ∈ ns, records'[n]? = records[n]?) → ShowAll records' fields entries ns
  | .nil, _ => .nil
  | .cons h hall, hsame =>
    .cons (h.congr fun m hm => hsame m (List.mem_append_left _ hm))
      (hall.congr fun m hm => hsame m (List.mem_append_right _ hm))
end

/-- An item with a tree of records, none of them at two places. -/
structure Alone (b : Bag) (i : Item) (t : Tree) (ns : List Nat) : Prop where
  shows : Shows b.records i t ns
  nodup : ns.Nodup

/-- A bag that differs from an earlier one in some records, and in what these have become. -/
structure Within (b b' : Bag) (ns ns' : List Nat) : Prop where
  le : b.records.length ≤ b'.records.length
  kept : ∀ n < b.records.length, n ∉ ns → b'.records[n]? = b.records[n]?
  numbers : ∀ n ∈ ns', n ∈ ns ∨ b.records.length ≤ n

theorem Within.refl (b : Bag) (ns : List Nat) : Within b b ns ns where
  le := Nat.le_refl _
  kept _ _ _ := rfl
  numbers _ hn := .inl hn

theorem Within.trans {b'' : Bag} {ns'' : List Nat} (h : Within b b' ns ns') (h' : Within b' b'' ns' ns'') :
    Within b b'' ns ns'' where
  le := Nat.le_trans h.le h'.le
  kept n hn hns := by
    have hns' : n ∉ ns' := fun hmem => (h.numbers n hmem).elim hns (Nat.not_le_of_lt hn)
    rw [h'.kept n (Nat.lt_of_lt_of_le hn h.le) hns', h.kept n hn hns]
  numbers n hn := by
    rcases h'.numbers n hn with hn | hn
    · exact h.numbers n hn
    · exact .inr (Nat.le_trans h.le hn)

/-- What differs in new records only differs in some records and in those. -/
theorem Within.widen (h : Within b b' [] ns') : Within b b' ns ns' where
  le := h.le
  kept n hn _ := h.kept n hn List.not_mem_nil
  numbers n hn := .inr ((h.numbers n hn).resolve_left List.not_mem_nil)

/-- Records apart from those that differ look as before, and are apart from what these have become. -/
theorem Within.frame (h : Within b b' ns ns') (hi : Shows b.records i t ms) (hapart : ∀ n ∈ ms, n ∉ ns) :
    Shows b'.records i t ms ∧ ∀ n ∈ ms, n ∉ ns' := by
  refine ⟨hi.congr fun n hn => h.kept n (hi.lt n hn) (hapart n hn), fun n hn hns' => ?_⟩
  exact (h.numbers n hns').elim (hapart n hn) (Nat.not_le_of_lt (hi.lt n hn))

theorem Within.frameAll (h : Within b b' ns ns') (hi : ShowAll b.records fields entries ms)
    (hapart : ∀ n ∈ ms, n ∉ ns) : ShowAll b'.records fields entries ms ∧ ∀ n ∈ ms, n ∉ ns' := by
  refine ⟨hi.congr fun n hn => h.kept n (hi.lt n hn) (hapart n hn), fun n hn hns' => ?_⟩
  exact (h.numbers n hns').elim (hapart n hn) (Nat.not_le_of_lt (hi.lt n hn))

/-- What is under a key, if there is anything, is alone with the records `under`, and something alone can
take its place. -/
structure UnderKey (b : Bag) (key : String) (fields : List (String × Item)) (entries : List (String × Tree))
    (ns under : List Nat) : Prop where
  subset : ∀ n ∈ under, n ∈ ns
  alone : Option.Rel (Alone b · · under) (fields.lookup key) (entries.lookup key)
  replace {b' : Bag} {i : Item} {c : Tree} {ms : List Nat} : Alone b' i c ms → Within b b' under ms →
    ∃ ns', ShowAll b'.records (assign key i fields) (assign key c entries) ns' ∧ ns'.Nodup ∧
      ∀ n ∈ ns', n ∈ ns ∨ b.records.length ≤ n

theorem UnderKey.nil (b : Bag) (key : String) : UnderKey b key [] [] [] [] where
  subset := nofun
  alone := .none
  replace {_ _ _ ms} hc hwithin := by
    refine ⟨ms ++ [], .cons hc.shows .nil, ?_, ?_⟩
    · rw [List.append_nil]
      exact hc.nodup
    · rw [List.append_nil]
      exact hwithin.numbers

theorem UnderKey.here (hi : Shows b.records i t ns) (hrest : ShowAll b.records fields entries ms)
    (hnodup : (ns ++ ms).Nodup) : UnderKey b key ((key, i) :: fields) ((key, t) :: entries) (ns ++ ms) ns := by
  obtain ⟨hns, hms, hdisjoint⟩ := List.nodup_append.1 hnodup
  refine ⟨fun n hn => List.mem_append_left _ hn, ?_, fun {b' j c ns'} hc hwithin => ?_⟩
  · rw [lookup_cons_eq_ite, lookup_cons_eq_ite, if_pos rfl, if_pos rfl]
    exact .some ⟨hi, hns⟩
  · rw [assign, assign, if_pos (beq_self_eq_true key), if_pos (beq_self_eq_true key)]
    obtain ⟨hothers, hapart⟩ := hwithin.frameAll hrest fun n hn hmem => hdisjoint n hmem n hn rfl
    refine ⟨ns' ++ ms, .cons hc.shows hothers, ?_, fun n hn => ?_⟩
    · exact List.nodup_append.2 ⟨hc.nodup, hms, fun n hn m hm heq => hapart m hm (heq ▸ hn)⟩
    · rcases List.mem_append.1 hn with hn | hn
      · exact (hwithin.numbers n hn).imp_left (List.mem_append_left _)
      · exact .inl (List.mem_append_right _ hn)

theorem UnderKey.behind {k : String} {under : List Nat} (hk : k ≠ key) (hi : Shows b.records i t ns)
    (hnodup : (ns ++ ms).Nodup) (h : UnderKey b key fields entries ms under) :
    UnderKey b key ((k, i) :: fields) ((k, t) :: entries) (ns ++ ms) under := by
  obtain ⟨hns, -, hdisjoint⟩ := List.nodup_append.1 hnodup
  have hbeq : ¬(k == key) = true := by simpa using hk
  refine ⟨fun n hn => List.mem_append_right _ (h.subset n hn), ?_, fun {b' j c _} hc hwithin => ?_⟩
  · rw [lookup_cons_eq_ite, lookup_cons_eq_ite, if_neg (Ne.symm hk), if_neg (Ne.symm hk)]
    exact h.alone
  · rw [assign, assign, if_neg hbeq, if_neg hbeq]
    obtain ⟨ms', hrest', hms', hnumbers⟩ := h.replace hc hwithin
    obtain ⟨hi', -⟩ := hwithin.frame hi fun n hn hmem => hdisjoint n hn n (h.subset n hmem) rfl
    refine ⟨ns ++ ms', .cons hi' hrest', ?_, fun n hn => ?_⟩
    · refine List.nodup_append.2 ⟨hns, hms', fun n hn m hm heq => ?_⟩
      subst heq
      exact (hnumbers n hm).elim (fun hmem => hdisjoint n hn n hmem rfl) (Nat.not_le_of_lt (hi.lt n hn))
    · rcases List.mem_append.1 hn with hn | hn
      · exact .inl (List.mem_append_left _ hn)
      · exact (hnumbers n hn).imp_left (List.mem_append_right _)

theorem ShowAll.underKey (h : ShowAll b.records fields entries ns) (hnodup : ns.Nodup) (key : String) :
    ∃ under, UnderKey b key fields entries ns under := by
  induction fields generalizing entries ns with
  | nil =>
    cases h
    exact ⟨[], .nil b key⟩
  | cons field rest ih =>
    cases h with
    | @cons k i t _ others ns ms hi hrest =>
      by_cases hk : k = key
      · subst hk
        exact ⟨ns, .here hi hrest hnodup⟩
      · obtain ⟨under, hunder⟩ := ih hrest (List.nodup_append.1 hnodup).2.1
        exact ⟨under, hunder.behind hk hi hnodup⟩

/-- An item that was made on its own can be put under a key of a record. -/
theorem Alone.write {grows : Bool} (h : Alone b (.record n) (.record grows entries) ns)
    (hi : Alone b' i c ms) (hnew : Within b b' [] ms) (key : String) :
    ∃ ns', Alone (b'.write n key i) (.record n) (.record grows (assign key c entries)) ns' ∧
      Within b (b'.write n key i) ns ns' := by
  cases h.shows with
  | @record _ r _ rs hr hall =>
    obtain ⟨hn, hrs⟩ := List.nodup_cons.1 h.nodup
    have hlt := lt_of_record hr
    obtain ⟨under, hunder⟩ := hall.underKey hrs key
    obtain ⟨rs', hall', hrs', hnumbers⟩ := hunder.replace hi hnew.widen
    have hn' : n ∉ rs' := fun hmem => (hnumbers n hmem).elim hn (Nat.not_le_of_lt hlt)
    have hr' : b'.records[n]? = some r := (hnew.kept n hlt List.not_mem_nil).trans hr
    refine ⟨n :: rs', ⟨?_, List.nodup_cons.2 ⟨hn', hrs'⟩⟩, ?_, fun m hm hns => ?_, fun m hm => ?_⟩
    · refine .record (r := ⟨r.grows, assign key i r.fields⟩) (records_write_self hr') ?_
      exact hall'.congr fun m hm => records_write_ne fun heq => hn' (heq ▸ hm)
    · rw [length_write]
      exact hnew.le
    · rw [records_write_ne fun heq => hns (List.mem_cons.2 (.inl heq))]
      exact hnew.kept m hm List.not_mem_nil
    · rcases List.mem_cons.1 hm with rfl | hm
      · exact .inl List.mem_cons_self
      · exact (hnumbers m hm).imp_left (List.mem_cons_of_mem _)

/-! ### Changes of trees -/

/-- A change does to an item that is alone what a change of trees does to its tree. -/
def Follows (change : Bag → Item → Bag × Option Fault) (treeChange : Tree → Tree × Option Fault) : Prop :=
  ∀ b i t ns, Alone b i t ns → (change b i).2 = (treeChange t).2 ∧
    ∃ ns', Alone (change b i).1 i (treeChange t).1 ns' ∧ Within b (change b i).1 ns ns'

variable {treeChange : Tree → Tree × Option Fault}

/-- A change behind a key that is there. -/
theorem Follows.found (hchange : Follows change treeChange) {grows : Bool}
    (h : Alone b (.record n) (.record grows entries) ns) (hkey : (b.fields n).lookup key = some i) :
    ∃ c, entries.lookup key = some c ∧ (change b i).2 = (treeChange c).2 ∧
      ∃ ns', Alone (change b i).1 (.record n) (.record grows (assign key (treeChange c).1 entries)) ns' ∧
        Within b (change b i).1 ns ns' := by
  cases h.shows with
  | @record _ r _ rs hr hall =>
    rw [fields_of_record hr] at hkey
    obtain ⟨hn, hrs⟩ := List.nodup_cons.1 h.nodup
    have hlt := lt_of_record hr
    obtain ⟨under, hunder⟩ := hall.underKey hrs key
    have hthere := hunder.alone
    rw [hkey] at hthere
    generalize hentry : entries.lookup key = entry at hthere
    cases hthere with
    | @some _ c halone =>
      obtain ⟨hfault, ms, hc, hwithin⟩ := hchange b i c under halone
      obtain ⟨rs', hall', hrs', hnumbers⟩ := hunder.replace hc hwithin
      rw [assign_of_lookup hkey] at hall'
      have hn' : n ∉ rs' := fun hmem => (hnumbers n hmem).elim hn (Nat.not_le_of_lt hlt)
      refine ⟨c, rfl, hfault, n :: rs', ⟨.record ?_ hall', List.nodup_cons.2 ⟨hn', hrs'⟩⟩, hwithin.le,
        fun m hm hns => ?_, fun m hm => ?_⟩
      · exact (hwithin.kept n hlt fun hmem => hn (hunder.subset n hmem)).trans hr
      · exact hwithin.kept m hm fun hmem => hns (List.mem_cons_of_mem _ (hunder.subset m hmem))
      · rcases List.mem_cons.1 hm with rfl | hm
        · exact .inl List.mem_cons_self
        · exact (hnumbers m hm).imp_left (List.mem_cons_of_mem _)

theorem alone_make (b : Bag) : Alone (b.make ⟨true, []⟩).1 (.record b.records.length) .new
    [b.records.length] ∧ Within b (b.make ⟨true, []⟩).1 [] [b.records.length] := by
  refine ⟨⟨.record (records_make _) .nil, List.nodup_singleton _⟩, ?_, fun m hm _ => records_make_lt hm,
    fun m hm => ?_⟩
  · exact Nat.le_of_lt (lt_of_record (records_make _))
  · exact .inr (Nat.le_of_eq (List.mem_singleton.1 hm).symm)

theorem Follows.follow (hchange : Follows change treeChange) (path : List String) :
    Follows (Bag.follow change path) (Tree.follow treeChange path) := by
  induction path with
  | nil => exact hchange
  | cons key rest ih =>
    intro b i t ns h
    cases h.shows with
    | bare => exact ⟨rfl, _, h, .refl b _⟩
    | @record n r entries rs hr hall =>
      obtain ⟨-, hrs⟩ := List.nodup_cons.1 h.nodup
      cases hkey : (b.fields n).lookup key with
      | some i =>
        obtain ⟨c, hentry, hfault, hfound⟩ := ih.found h hkey
        rw [Bag.follow, look_found hkey, Tree.follow_of_child_ok (c := c) (by rw [Tree.child, hentry])]
        exact ⟨hfault, hfound⟩
      | none =>
        have hentry : entries.lookup key = none := by
          obtain ⟨under, hunder⟩ := hall.underKey hrs key
          have hthere := hunder.alone
          rw [← fields_of_record hr, hkey] at hthere
          generalize entries.lookup key = entry at hthere ⊢
          cases hthere
          rfl
        cases hgrows : r.grows with
        | false =>
          rw [Bag.follow, look_missing hkey ((grows_of_record hr).trans hgrows),
            Tree.follow_of_child_error (f := .missingKey key) (by rw [Tree.child, hentry]; rfl)]
          exact ⟨rfl, _, hgrows ▸ h, .refl b _⟩
        | true =>
          -- With the new record in its place, the key is one that is there.
          rw [hgrows] at h
          obtain ⟨ns', hgrown, hwithin⟩ := h.write (alone_make b).1 (alone_make b).2 key
          have hkey' : ((b.grown n key).fields n).lookup key = some (.record b.records.length) :=
            lookup_write_self (by rw [length_make]; exact Nat.lt_succ_of_lt (lt_of_record hr))
          obtain ⟨c, hc, hfault, ns'', hfound, hwithin'⟩ := ih.found hgrown hkey'
          rw [lookup_assign, if_pos rfl] at hc
          cases hc
          rw [assign_assign] at hfound
          rw [Bag.follow, look_grown hkey ((grows_of_record hr).trans hgrows),
            Tree.follow_of_child_ok (c := .new) (by rw [Tree.child, hentry]; rfl)]
          exact ⟨hfault, ns'', hfound, hwithin.trans hwithin'⟩

/-! ### Building -/

mutual
/-- A value that is built has records of its own. -/
theorem alone_build : (v : Value) → (b : Bag) →
    ∃ ns, Alone (b.take (.built v)).1 (b.take (.built v)).2 (.ofValue v) ns ∧
      Within b (b.take (.built v)).1 [] ns
  | .record fields, b => by
    obtain ⟨ns, hall, hnodup, hwithin⟩ := alone_buildFields fields b
    refine ⟨_ :: ns, ⟨.record (records_make _) (hall.congr fun n hn => ?_), ?_⟩, ?_⟩
    · exact records_make_lt (hall.lt n hn)
    · exact List.nodup_cons.2 ⟨fun hmem => Nat.lt_irrefl _ (hall.lt _ hmem), hnodup⟩
    · refine hwithin.trans ⟨?_, fun n hn _ => records_make_lt hn, fun n hn => ?_⟩
      · exact Nat.le_of_lt (lt_of_record (records_make _))
      · exact (List.mem_cons.1 hn).elim (fun heq => .inr (Nat.le_of_eq heq.symm)) .inl
  | .null, b | .truth _, b | .integer _, b | .decimal _, b | .text _, b | .list _, b =>
    ⟨[], ⟨.bare, List.nodup_nil⟩, .refl b []⟩

theorem alone_buildFields : (fields : List (String × Value)) → (b : Bag) →
    ∃ ns, ShowAll (buildFields fields b).1.records (buildFields fields b).2 (Tree.ofFields fields) ns ∧
      ns.Nodup ∧ Within b (buildFields fields b).1 [] ns
  | [], b => ⟨[], .nil, List.nodup_nil, .refl b []⟩
  | (key, v) :: rest, b => by
    obtain ⟨ns, ⟨hshows, hns⟩, hwithin⟩ := alone_build v b
    obtain ⟨ms, hall, hms, hwithin'⟩ := alone_buildFields rest (b.take (.built v)).1
    obtain ⟨hkept, hapart⟩ := hwithin'.frame hshows fun n _ => List.not_mem_nil
    have hboth := hwithin.trans hwithin'.widen
    refine ⟨ns ++ ms, .cons hkept hall, ?_, hboth.le, hboth.kept, fun n hn => ?_⟩
    · exact List.nodup_append.2 ⟨hns, hms, fun n hn m hm heq => hapart n hn (heq ▸ hm)⟩
    · exact (List.mem_append.1 hn).elim (hwithin.numbers n) (hboth.numbers n)
end

mutual
theorem Shows.valueOf {i : Item} {t : Tree} {ns : List Nat} : Shows b.records i t ns → {depth : Nat} →
    ns.length ≤ depth → b.valueOf depth i = t.plain
  | .bare, depth, _ => by cases depth <;> rfl
  | .record hr hall, depth + 1, hdepth => by
    rw [Bag.valueOf, fields_of_record hr, Tree.plain, hall.valuesOf (Nat.le_of_succ_le_succ hdepth)]

theorem ShowAll.valuesOf {fields : List (String × Item)} {entries : List (String × Tree)}
    {ns : List Nat} : ShowAll b.records fields entries ns → {depth : Nat} → ns.length ≤ depth →
    fields.map (fun (k, i) => (k, b.valueOf depth i)) = Tree.plainEntries entries
  | .nil, _, _ => rfl
  | .cons h hall, depth, hdepth => by
    rw [List.length_append] at hdepth
    rw [List.map_cons, Tree.plainEntries, hall.valuesOf (Nat.le_trans (Nat.le_add_left _ _) hdepth)]
    dsimp only
    rw [h.valueOf (Nat.le_trans (Nat.le_add_right _ _) hdepth)]
end

/-- No record of a bag stands at two places: the bag is a tree. -/
def Unshared (b : Bag) (t : Tree) : Prop := ∃ ns, Alone b root t ns

theorem Unshared.plain (h : Unshared b t) : b.plain = t.plain := by
  obtain ⟨ns, hshows, hnodup⟩ := h
  have hlength : ns.length ≤ b.records.length := by
    have hsubset : ns ⊆ List.range b.records.length := fun n hn => List.mem_range.2 (hshows.lt n hn)
    simpa using hnodup.length_le_of_subset hsubset
  exact hshows.valueOf hlength

end Trees

/-! ### Operations -/

/-- What can be done to a bag: set a value, built for it, under a key at the end of a path, or look along
a path. -/
inductive Operation where
  | set (path : List String) (key : String) (v : Value)
  | get (path : List String)

namespace Operation

/-- The bag an operation leaves behind, and why it failed if it did. -/
def apply : Operation → Bag → Bag × Option Fault
  | set path key v, b => b.set (path ++ [key]) (.built v)
  | get path, b => b.get path

/-- What an operation does to the value of a bag. -/
inductive Effect (before : Value) : Operation → Value → Option Fault → Prop where
  | failed (op : Operation) (f : Fault) : Effect before op before (some f)
  | set {path : List String} {key : String} {v after : Value} :
    PlacedAt (path ++ [key]) v before after → Effect before (.set path key v) after none
  | found {path : List String} : (before.at? path).isSome = true → Effect before (.get path) before none
  | grown {above below : List String} {key : String} {after : Value} :
    (before.at? above).isSome = true → before.at? (above ++ [key]) = none →
    PlacedAt (above ++ [key]) (levels below) before after →
    Effect before (.get (above ++ key :: below)) after none

variable {op : Operation}

end Operation

/-- The bag after operations, one after the other, whether they fail or not. -/
def run (b : Bag) (history : List Operation) : Bag := history.foldl (fun b op => (op.apply b).1) b

namespace Operation

def firstKey? : Operation → Option String
  | set path key _ => (path ++ [key]).head?
  | get path => path.head?

/-- Keys, with the first key of an operation behind them if that is new. -/
def note (keys : List String) (op : Operation) : List String :=
  match op.firstKey? with
  | some key => keys ++ if key ∈ keys then [] else [key]
  | none => keys

variable {op : Operation} {old : List (String × Value)} {after : Value}

theorem note_of_placed {path behind : List String} {v : Value} (hpath : path ≠ [])
    (hop : op.firstKey? = (path ++ behind).head?) (h : PlacedAt path v (.record old) after) :
    ∃ new, after = .record new ∧ keysOf new = op.note (keysOf old) := by
  obtain ⟨key, rest, rfl⟩ := List.exists_cons_of_ne_nil hpath
  obtain ⟨was, new, hwas, hnew, hkeys⟩ := h.above [] key (by simp)
  cases hwas
  refine ⟨new, Option.some.inj hnew, ?_⟩
  rw [note, hop]
  exact hkeys

/-- What succeeds notes its first key in the uppermost level. -/
theorem Effect.note (h : Effect (.record old) op after none) :
    ∃ new, after = .record new ∧ keysOf new = op.note (keysOf old) := by
  cases h with
  | @set path key _ _ h =>
    have hhead : (path ++ [key]).head? = (path ++ [key] ++ []).head? := by rw [List.append_nil]
    exact note_of_placed (by simp) hhead h
  | @found path hfound =>
    refine ⟨old, rfl, ?_⟩
    cases path with
    | nil => rfl
    | cons key rest =>
      rw [at?_record] at hfound
      have hmem : key ∈ keysOf old := by
        cases hfield : old.lookup key with
        | none =>
          rw [hfield] at hfound
          cases hfound
        | some v => exact mem_keysOf.2 ⟨v, mem_of_lookup hfield⟩
      show _ = keysOf old ++ if key ∈ keysOf old then [] else [key]
      rw [if_pos hmem, List.append_nil]
  | @grown above below key _ _ _ h =>
    have hhead : (above ++ key :: below).head? = (above ++ [key] ++ below).head? := by simp
    exact note_of_placed (by simp) hhead h

end Operation

example : (run empty [.set ["shared"] "a" (.record [("x", .null)]), .set ["shared", "a", "y"] "z" .null,
    .get ["own", "b"], .set ["shared", "a"] "w" (.integer 1)]).plain =
    .record [("shared", .record [("a", .record [("x", .null), ("w", .integer 1)])]),
      ("own", .record [("b", .record [])])] := rfl

end SettingsHarvest.Bag
