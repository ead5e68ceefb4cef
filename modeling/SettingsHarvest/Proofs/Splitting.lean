import Mathlib.Tactic.Choose
import SettingsHarvest.Categories
import SettingsHarvest.Proofs.Assignment
import SettingsHarvest.Proofs.Attempt

/-! Where the plugins of two trees end up.

Plugins are split one after another, and what they are split into is what filters of the whole list
say (`Split.byCounterparts`): `Split.add` goes from the filters of some plugins to those of one more, and
so `Split.of` ends up with the filters of all. `Split.secondOnly` then fills three lists into one another,
and a plugin is in the result exactly if no earlier list has its name (`mem_secondOnly`).

Two statements come of this. The plugins of the first tree are split exactly (`first_tree_split`): each is
in one of two categories, and the categories hold what their names promise. The plugins of the second
tree are kept name by name (`second_tree_kept`): categories go by names, so that of two plugins with one
name only one may be kept. -/
namespace SettingsHarvest

/-! ### Plugins under their own names -/

/-- Every plugin stands under its own name, and every name stands once. -/
structure SelfNamed (plugins : Plugins) : Prop where
  named : ∀ e ∈ plugins, e.2.name = e.1
  distinct : (keysOf plugins).Nodup

namespace Catalog

/-- Both directories of a tree have their plugins under their own names. -/
structure WellNamed (c : Catalog) : Prop where
  shared : SelfNamed c.shared
  own : SelfNamed c.own

/-- A plugin of a tree, under a name. -/
def Has (c : Catalog) (e : String × Plugin) : Prop := e ∈ c.own ∨ e ∈ c.shared

theorem WellNamed.named {c : Catalog} (h : c.WellNamed) {e : String × Plugin} (he : c.Has e) :
    e.2.name = e.1 := by
  rcases he with he | he
  · exact h.own.named e he
  · exact h.shared.named e he

/-- A name that only one of the directories has is the name of one plugin. -/
theorem WellNamed.eq_of_only {c : Catalog} (h : c.WellNamed) {e : String × Plugin} {p : Plugin}
    (he : c.Has e) (hp : c.Has (e.1, p)) (halone : e.1 ∉ keysOf c.own ∨ e.1 ∉ keysOf c.shared) :
    e.2 = p := by
  have hunique {plugins : Plugins} (hnames : SelfNamed plugins) (he : e ∈ plugins)
      (hp : (e.1, p) ∈ plugins) : e.2 = p :=
    Option.some.inj ((lookup_of_mem hnames.distinct he).symm.trans (lookup_of_mem hnames.distinct hp))
  have hkey {plugins : Plugins} {q : Plugin} (hq : (e.1, q) ∈ plugins) : e.1 ∈ keysOf plugins :=
    mem_keysOf.2 ⟨q, hq⟩
  rcases he with he | he <;> rcases hp with hp | hp
  · exact hunique h.own he hp
  · exact absurd halone (by simp [hkey he, hkey hp])
  · exact absurd halone (by simp [hkey he, hkey hp])
  · exact hunique h.shared he hp

/-! ### Sorting -/

theorem mem_byName {plugins : Plugins} {e : String × Plugin} : e ∈ byName plugins ↔ e ∈ plugins :=
  List.mem_mergeSort

theorem mem_keysOf_byName {plugins : Plugins} {name : String} :
    name ∈ keysOf (byName plugins) ↔ name ∈ keysOf plugins := by
  simp only [mem_keysOf, mem_byName]

/-- Different names end up in strict order. -/
theorem sorted_byName {plugins : Plugins} (h : (keysOf plugins).Nodup) :
    (keysOf (byName plugins)).Pairwise (· < ·) := by
  have hordered : (byName plugins).Pairwise fun a b => (!(b.1 < a.1 : Bool)) = true := by
    refine List.pairwise_mergeSort (fun a b c hab hbc => ?_) (fun a b => ?_) plugins
    · simp only [Bool.not_eq_true', decide_eq_false_iff_not, String.not_lt] at hab hbc ⊢
      exact String.le_trans hab hbc
    · simp only [Bool.or_eq_true, Bool.not_eq_true', decide_eq_false_iff_not, String.not_lt]
      exact String.le_total a.1 b.1
  have hdistinct : (keysOf (byName plugins)).Nodup :=
    ((List.mergeSort_perm plugins _).map _).nodup_iff.2 h
  rw [keysOf, List.pairwise_map]
  refine (hordered.and (List.pairwise_map.1 hdistinct)).imp fun {a b} hab => ?_
  obtain ⟨hle, hne⟩ := hab
  simp only [Bool.not_eq_true', decide_eq_false_iff_not, String.not_lt] at hle
  exact Decidable.byContradiction fun hnot => hne (String.le_antisymm hle (String.not_lt.1 hnot))

theorem nodup_of_sorted {names : List String} (h : names.Pairwise (· < ·)) : names.Nodup :=
  h.imp fun {a b} (hlt : a < b) (heq : a = b) => String.lt_irrefl b (heq ▸ hlt)

end Catalog

namespace Categories
open Catalog

/-! ### Counterparts -/

/-- A table of texts only has texts to look up. -/
theorem exists_text_of_lookup {table : List (String × String)} {key d : Datum}
    (h : Datum.lookup? key (Preferences.ofTexts table) = some d) : ∃ s, d = .text s := by
  obtain ⟨entry, hentry, rfl⟩ := Option.map_eq_some_iff.1 h
  obtain ⟨texts, -, rfl⟩ := List.mem_map.1 (List.mem_of_find?_eq_some hentry)
  exact ⟨texts.2, rfl⟩

theorem exists_renamed (table : List (String × String)) (name : String) :
    ∃ target, renamed? (Preferences.ofTexts table) name = .ok target := by
  unfold renamed?
  dsimp only
  split
  · exact ⟨_, rfl⟩
  · next d hother hd =>
    have htext : ∃ s, d = .text s := by
      split at hd
      · next found hfound =>
        split at hd
        · exact exists_text_of_lookup hd
        · cases hd
          exact exists_text_of_lookup hfound
      · exact exists_text_of_lookup hd
    obtain ⟨s, rfl⟩ := htext
    exact absurd rfl (hother s)
  · exact ⟨_, rfl⟩

/-- With a table of texts, it is always known whether there is a counterpart. -/
theorem exists_counterpart (table : List (String × String)) (second : Catalog) (e : String × Plugin) :
    ∃ found, counterpart? (Preferences.ofTexts table) second e.1 e.2 = .ok found := by
  unfold counterpart?
  split
  · exact ⟨_, rfl⟩
  · obtain ⟨target, htarget⟩ := exists_renamed table e.1
    rw [htarget]
    exact ⟨_, rfl⟩

/-- A counterpart is a plugin of the second tree. -/
theorem has_of_counterpart {renames : Preferences} {second : Catalog} {name : String} {p c : Plugin}
    (hsecond : second.WellNamed) (h : counterpart? renames second name p = .ok (some c)) :
    second.Has (c.name, c) := by
  suffices hsome : ∃ n, second.Has (n, c) by
    obtain ⟨n, hn⟩ := hsome
    rwa [hsecond.named hn]
  unfold counterpart? at h
  split at h
  · next found hfound =>
    cases h
    exact ⟨name, .inr (mem_of_lookup hfound)⟩
  · obtain ⟨target, -, h⟩ := bind_eq_ok.1 h
    rcases Option.or_eq_some_iff.1 (pure_eq_ok.1 h) with hrenamed | ⟨-, hfolder⟩
    · obtain ⟨n, -, hn⟩ := Option.bind_eq_some_iff.1 hrenamed
      rcases Option.or_eq_some_iff.1 hn with hown | ⟨-, hshared⟩
      · exact ⟨n, .inl (mem_of_lookup hown)⟩
      · exact ⟨n, .inr (mem_of_lookup hshared)⟩
    · unfold inFolder? at hfolder
      obtain ⟨entry, hentry, rfl⟩ := Option.map_eq_some_iff.1 hfolder
      exact ⟨entry.1, .inr (List.mem_reverse.1 (List.mem_of_find?_eq_some hentry))⟩

/-! ### Splitting -/

namespace Split

/-- Plugins with known counterparts, split as a whole. -/
def byCounterparts (found : String × Plugin → Option Plugin) (first : Plugins) : Split where
  generic := first.filterMap fun e => ((found e).filter (!·.isModified)).map (e.1, ·)
  firstOnly := first.filter fun e => (found e).all (·.isModified)
  matched := (first.filterMap fun e => (found e).map (·.name)).reverse
  modified := assignAll [] (((first.filterMap found).filter (·.isModified)).map fun c => (c.name, c))

variable {found : String × Plugin → Option Plugin} {first before : Plugins} {e : String × Plugin}
  {name : String} {c : Plugin}

theorem mem_generic : (name, c) ∈ (byCounterparts found first).generic ↔
    ∃ e ∈ first, e.1 = name ∧ found e = some c ∧ c.isModified = false := by
  simp only [byCounterparts, List.mem_filterMap, Option.map_eq_some_iff, Option.filter_eq_some_iff,
    Prod.mk.injEq, Bool.not_eq_true']
  constructor
  · rintro ⟨e, he, c, ⟨hfound, hmodified⟩, hname, rfl⟩
    exact ⟨e, he, hname, hfound, hmodified⟩
  · rintro ⟨e, he, hname, hfound, hmodified⟩
    exact ⟨e, he, c, ⟨hfound, hmodified⟩, hname, rfl⟩

theorem mem_firstOnly : e ∈ (byCounterparts found first).firstOnly ↔
    e ∈ first ∧ ∀ c, found e = some c → c.isModified = true := by
  simp [byCounterparts, Option.all_eq_true]

theorem mem_matched : name ∈ (byCounterparts found first).matched ↔
    ∃ e ∈ first, ∃ c, found e = some c ∧ c.name = name := by
  simp [byCounterparts]

theorem mem_of_mem_modified (h : (name, c) ∈ (byCounterparts found first).modified) :
    c.name = name ∧ c.isModified = true ∧ ∃ e ∈ first, found e = some c := by
  refine forall_mem_assignAll (P := fun f => f.2.name = f.1 ∧ f.2.isModified = true ∧
    ∃ e ∈ first, found e = some f.2) (List.forall_mem_nil _) (fun field hfield => ?_) _ h
  obtain ⟨c, hc, rfl⟩ := List.mem_map.1 hfield
  obtain ⟨hc, hmodified⟩ := List.mem_filter.1 hc
  obtain ⟨e, he, hfound⟩ := List.mem_filterMap.1 hc
  exact ⟨rfl, hmodified, e, he, hfound⟩

theorem mem_keysOf_modified : name ∈ keysOf (byCounterparts found first).modified ↔
    ∃ e ∈ first, ∃ c, found e = some c ∧ c.isModified = true ∧ c.name = name := by
  rw [byCounterparts, mem_keysOf_assignAll]
  simp only [keysOf, List.map_nil, List.not_mem_nil, false_or, List.map_map, List.mem_map,
    List.mem_filter, List.mem_filterMap, Function.comp]
  constructor
  · rintro ⟨c, ⟨⟨e, he, hfound⟩, hmodified⟩, hname⟩
    exact ⟨e, he, c, hfound, hmodified, hname⟩
  · rintro ⟨e, he, c, hfound, hmodified, hname⟩
    exact ⟨c, ⟨⟨e, he, hfound⟩, hmodified⟩, hname⟩

theorem nodup_modified : (keysOf (byCounterparts found first).modified).Nodup :=
  nodup_keysOf_assignAll List.nodup_nil

theorem mem_keysOf_generic : name ∈ keysOf (byCounterparts found first).generic ↔
    ∃ e ∈ first, e.1 = name ∧ ∃ c, found e = some c ∧ c.isModified = false := by
  simp only [mem_keysOf, mem_generic]
  exact ⟨fun ⟨c, e, he, hname, hc⟩ => ⟨e, he, hname, c, hc⟩,
    fun ⟨e, he, hname, c, hc⟩ => ⟨c, e, he, hname, hc⟩⟩

theorem sublist_generic : List.Sublist (keysOf (byCounterparts found first).generic) (keysOf first) := by
  induction first with
  | nil => exact .slnil
  | cons e rest ih =>
    have hgeneric : (byCounterparts found (e :: rest)).generic =
        (((found e).filter (!·.isModified)).map (e.1, ·)).toList ++ (byCounterparts found rest).generic := by
      simp only [byCounterparts, List.filterMap_cons]
      cases ((found e).filter (!·.isModified)).map (e.1, ·) <;> rfl
    rw [hgeneric, keysOf_append, keysOf_cons]
    cases (found e).filter (!·.isModified) with
    | none => exact ih.cons _
    | some c => exact ih.cons_cons _

/-- Every plugin goes one way. -/
theorem covers : name ∈ keysOf first ↔
    name ∈ keysOf (byCounterparts found first).generic ∨
      name ∈ keysOf (byCounterparts found first).firstOnly := by
  rw [mem_keysOf_generic, mem_keysOf, mem_keysOf]
  constructor
  · rintro ⟨p, hp⟩
    by_cases hmodified : ∀ c, found (name, p) = some c → c.isModified = true
    · exact .inr ⟨p, mem_firstOnly.2 ⟨hp, hmodified⟩⟩
    · simp only [not_forall] at hmodified
      obtain ⟨c, hc, hunmodified⟩ := hmodified
      exact .inl ⟨(name, p), hp, rfl, c, hc, by simpa using hunmodified⟩
  · rintro (⟨e, he, rfl, -⟩ | ⟨p, hp⟩)
    · exact ⟨e.2, he⟩
    · exact ⟨p, (mem_firstOnly.1 hp).1⟩

/-- No plugin goes both ways. -/
theorem apart (hdistinct : (keysOf first).Nodup)
    (h : name ∈ keysOf (byCounterparts found first).generic) :
    name ∉ keysOf (byCounterparts found first).firstOnly := by
  obtain ⟨e, he, rfl, c, hc, hunmodified⟩ := mem_keysOf_generic.1 h
  intro honly
  obtain ⟨p, hp⟩ := mem_keysOf.1 honly
  obtain ⟨hp, hmodified⟩ := mem_firstOnly.1 hp
  have hsame : e.2 = p :=
    Option.some.inj ((lookup_of_mem hdistinct he).symm.trans (lookup_of_mem hdistinct hp))
  subst hsame
  rw [hmodified c hc] at hunmodified
  cases hunmodified

/-- One more plugin, under a new name. -/
theorem add_byCounterparts (hnew : e.1 ∉ keysOf before) :
    (byCounterparts found before).add e.1 e.2 (found e) = byCounterparts found (before ++ [e]) := by
  have hgeneric : e.1 ∉ keysOf (byCounterparts found before).generic :=
    fun h => hnew (sublist_generic.subset h)
  have hfirst : e.1 ∉ keysOf (byCounterparts found before).firstOnly := fun h => by
    obtain ⟨p, hp⟩ := mem_keysOf.1 h
    exact hnew (mem_keysOf.2 ⟨p, (mem_firstOnly.1 hp).1⟩)
  cases hfound : found e with
  | none =>
    rw [add, assign_of_not_mem hfirst]
    simp [byCounterparts, hfound]
  | some c =>
    rw [add]
    dsimp only
    cases hmodified : c.isModified with
    | true =>
      rw [if_pos rfl, assign_of_not_mem hfirst]
      simp [byCounterparts, hfound, hmodified, assignAll]
    | false =>
      rw [if_neg (by decide), assign_of_not_mem hgeneric]
      simp [byCounterparts, hfound, hmodified, Option.filter_some]

theorem of_eq {renames : Preferences} {second : Catalog} (hdistinct : (keysOf first).Nodup)
    (hfound : ∀ e, counterpart? renames second e.1 e.2 = .ok (found e)) :
    Split.of renames second first = .ok (byCounterparts found first) := by
  -- the plugins split so far are in front of those that are left
  suffices h : ∀ rest before, (keysOf (before ++ rest)).Nodup →
      rest.foldlM (fun s e => do
        return s.add e.1 e.2 (← counterpart? renames second e.1 e.2)) (byCounterparts found before) =
        Except.ok (byCounterparts found (before ++ rest)) from h first [] hdistinct
  intro rest
  induction rest with
  | nil =>
    intro before _
    rw [List.append_nil]
    rfl
  | cons e rest ih =>
    intro before hnodup
    have hnew : e.1 ∉ keysOf before := by
      rw [keysOf_append, List.nodup_append] at hnodup
      exact fun hmem => hnodup.2.2 _ hmem _ List.mem_cons_self rfl
    have hassoc : before ++ e :: rest = (before ++ [e]) ++ rest := by simp
    have hrest := ih (before ++ [e]) (hassoc ▸ hnodup)
    rw [← add_byCounterparts hnew, ← hassoc] at hrest
    rw [List.foldlM_cons, hfound e]
    exact hrest

end Split

/-! ### The second tree alone -/

/-- Plugins filled in where their names are free. -/
def filledIn (plugins more : Plugins) : Plugins :=
  more.foldl (fun ps (name, p) => if (ps.lookup name).isSome then ps else ps ++ [(name, p)]) plugins

theorem lookup_isSome_iff {plugins : Plugins} {name : String} :
    (plugins.lookup name).isSome = true ↔ name ∈ keysOf plugins := by
  rw [List.lookup_isSome_iff, mem_keysOf]
  constructor
  · rintro ⟨⟨n, p⟩, he, hname⟩
    exact ⟨p, eq_of_beq hname ▸ he⟩
  · rintro ⟨p, he⟩
    exact ⟨(name, p), he, beq_self_eq_true name⟩

theorem filledIn_cons {plugins more : Plugins} {e : String × Plugin} :
    filledIn plugins (e :: more) =
      filledIn (if e.1 ∈ keysOf plugins then plugins else plugins ++ [e]) more := by
  rw [filledIn, List.foldl_cons, filledIn]
  congr 1
  dsimp only
  by_cases htaken : e.1 ∈ keysOf plugins
  · rw [if_pos htaken, if_pos (lookup_isSome_iff.2 htaken)]
  · rw [if_neg htaken, if_neg fun hsome => htaken (lookup_isSome_iff.1 hsome)]

theorem mem_filledIn {plugins more : Plugins} {e : String × Plugin} (h : (keysOf more).Nodup) :
    e ∈ filledIn plugins more ↔ e ∈ plugins ∨ e ∈ more ∧ e.1 ∉ keysOf plugins := by
  induction more generalizing plugins with
  | nil => simp [filledIn]
  | cons first rest ih =>
    rw [keysOf_cons, List.nodup_cons] at h
    rw [filledIn_cons, ih h.2]
    by_cases htaken : first.1 ∈ keysOf plugins
    · rw [if_pos htaken, List.mem_cons]
      constructor
      · exact Or.imp_right fun ⟨he, hfree⟩ => ⟨.inr he, hfree⟩
      · rintro (he | ⟨rfl | he, hfree⟩)
        · exact .inl he
        · exact absurd htaken hfree
        · exact .inr ⟨he, hfree⟩
    · rw [if_neg htaken, keysOf_append, List.mem_append, List.mem_singleton, List.mem_append,
        List.mem_cons, keysOf_cons, keysOf_nil, List.mem_singleton]
      have hother (he : e ∈ rest) : e.1 ≠ first.1 := fun heq => h.1 (heq ▸ mem_keysOf.2 ⟨e.2, he⟩)
      constructor
      · rintro ((he | rfl) | ⟨he, hfree⟩)
        · exact .inl he
        · exact .inr ⟨.inl rfl, htaken⟩
        · exact .inr ⟨.inr he, fun hmem => hfree (.inl hmem)⟩
      · rintro (he | ⟨rfl | he, hfree⟩)
        · exact .inl (.inl he)
        · exact .inl (.inr rfl)
        · exact .inr ⟨he, fun hmem => hmem.elim hfree (hother he)⟩

theorem nodup_filledIn {plugins more : Plugins} (h : (keysOf plugins).Nodup) :
    (keysOf (filledIn plugins more)).Nodup := by
  induction more generalizing plugins with
  | nil => exact h
  | cons first rest ih =>
    rw [filledIn_cons]
    split
    · exact ih h
    · next hfree =>
      refine ih ?_
      rw [keysOf_append, keysOf_cons, keysOf_nil, List.nodup_append]
      refine ⟨h, List.pairwise_singleton _ _, fun n hn n' hn' heq => hfree ?_⟩
      rw [List.mem_singleton.1 hn'] at heq
      exact heq ▸ hn

namespace Split

variable {s : Split} {second : Catalog}

theorem secondOnly_eq : s.secondOnly second =
    filledIn (assignAll (second.own.filter fun e => !s.matched.contains e.1) s.modified)
      (second.shared.filter fun e => !s.matched.contains e.1) := rfl

theorem nodup_filter {plugins : Plugins} (h : (keysOf plugins).Nodup) (keep : String × Plugin → Bool) :
    (keysOf (plugins.filter keep)).Nodup := h.sublist (List.filter_sublist.map _)

theorem nodup_secondOnly (hsecond : second.WellNamed) : (keysOf (s.secondOnly second)).Nodup :=
  nodup_filledIn (nodup_keysOf_assignAll (nodup_filter hsecond.own.distinct _))

/-- A modified counterpart goes first, then a plugin of the tree's own, then one that both trees have. -/
theorem mem_secondOnly {e : String × Plugin} (hsecond : second.WellNamed)
    (hdistinct : (keysOf s.modified).Nodup) (hmatched : ∀ n ∈ keysOf s.modified, n ∈ s.matched) :
    e ∈ s.secondOnly second ↔ e ∈ s.modified ∨
      e.1 ∉ s.matched ∧ (e ∈ second.own ∨ e ∈ second.shared ∧ e.1 ∉ keysOf second.own) := by
  have hunmatched (n : String) : (!s.matched.contains n) = true ↔ n ∉ s.matched := by simp
  have hown : e.1 ∉ s.matched →
      (e.1 ∈ keysOf (second.own.filter fun e => !s.matched.contains e.1) ↔ e.1 ∈ keysOf second.own) := by
    intro hfree
    simp only [mem_keysOf, List.mem_filter, hunmatched]
    exact ⟨fun ⟨p, hp, _⟩ => ⟨p, hp⟩, fun ⟨p, hp⟩ => ⟨p, hp, hfree⟩⟩
  rw [secondOnly_eq, mem_filledIn (nodup_filter hsecond.shared.distinct _),
    mem_assignAll (nodup_filter hsecond.own.distinct _) hdistinct, mem_keysOf_assignAll,
    List.mem_filter, List.mem_filter, hunmatched]
  constructor
  · rintro ((he | ⟨-, he, hfree⟩) | ⟨⟨he, hfree⟩, hnew⟩)
    · exact .inl he
    · exact .inr ⟨hfree, .inl he⟩
    · rw [hown hfree, not_or] at hnew
      exact .inr ⟨hfree, .inr ⟨he, hnew.1⟩⟩
  · rintro (he | ⟨hfree, he | ⟨he, hnew⟩⟩)
    · exact .inl (.inl he)
    · exact .inl (.inr ⟨fun hmem => hfree (hmatched _ hmem), he, hfree⟩)
    · refine .inr ⟨⟨he, hfree⟩, ?_⟩
      rw [hown hfree, not_or]
      exact ⟨hnew, fun hmem => hfree (hmatched _ hmem)⟩

end Split

/-! ### The categories of two trees -/

/-- A plugin of the second tree is kept, as a generic one or as the tree's own. -/
def Keeps (c : Categories) (p : Plugin) : Prop := ∃ n, (n, p) ∈ c.generic ∨ (n, p) ∈ c.secondOnly

section Trees

variable {renames : Preferences} {first second : Catalog} {found : String × Plugin → Option Plugin}

/-- Plugins with known counterparts, in categories. -/
def ofCounterparts (found : String × Plugin → Option Plugin) (first second : Catalog) : Categories where
  generic := Catalog.byName (Split.byCounterparts found first.shared).generic
  firstOnly := Catalog.byName (Split.byCounterparts found first.shared).firstOnly
  secondOnly := Catalog.byName ((Split.byCounterparts found first.shared).secondOnly second)

theorem ofCatalogs_eq (hfirst : first.WellNamed)
    (hfound : ∀ e, counterpart? renames second e.1 e.2 = .ok (found e)) :
    ofCatalogs renames first (some second) = .ok (ofCounterparts found first second) := by
  rw [ofCatalogs, Split.of_eq hfirst.shared.distinct hfound]
  rfl

/-- What the second tree has alone: modified counterparts, and plugins whose name is that of no
counterpart, the tree's own ones first. -/
theorem mem_secondOnly_iff {e : String × Plugin} (hsecond : second.WellNamed) :
    e ∈ (ofCounterparts found first second).secondOnly ↔
      e ∈ (Split.byCounterparts found first.shared).modified ∨
        (∀ f ∈ first.shared, ∀ c, found f = some c → c.name ≠ e.1) ∧
          (e ∈ second.own ∨ e ∈ second.shared ∧ e.1 ∉ keysOf second.own) := by
  have hmatched : ∀ n ∈ keysOf (Split.byCounterparts found first.shared).modified,
      n ∈ (Split.byCounterparts found first.shared).matched := by
    intro n hn
    obtain ⟨f, hf, c, hc, -, hname⟩ := Split.mem_keysOf_modified.1 hn
    exact Split.mem_matched.2 ⟨f, hf, c, hc, hname⟩
  rw [ofCounterparts, mem_byName, Split.mem_secondOnly hsecond Split.nodup_modified hmatched,
    Split.mem_matched]
  simp only [not_exists, not_and, ne_eq]

/-- How the plugins of a first tree are split between the categories. -/
structure SplitsExactly (renames : Preferences) (first second : Catalog) (c : Categories) : Prop where
  covers : ∀ n, n ∈ keysOf first.shared ↔ n ∈ keysOf c.generic ∨ n ∈ keysOf c.firstOnly
  apart : ∀ n ∈ keysOf c.generic, n ∉ keysOf c.firstOnly
  unchanged : ∀ e ∈ c.firstOnly, e ∈ first.shared
  /-- A generic plugin is an unmodified counterpart of the plugin it stands for. -/
  generic : ∀ e ∈ c.generic, e.2.isModified = false ∧ second.Has (e.2.name, e.2) ∧
    ∃ p, (e.1, p) ∈ first.shared ∧ counterpart? renames second e.1 p = .ok (some e.2)
  modified : ∀ e ∈ first.shared, ∀ m, counterpart? renames second e.1 e.2 = .ok (some m) →
    m.isModified = true → e ∈ c.firstOnly ∧
      ∃ m', c.secondOnly.lookup m.name = some m' ∧ m'.isModified = true
  fromSecond : ∀ e ∈ c.secondOnly, second.Has e
  sorted : (keysOf c.generic).Pairwise (· < ·) ∧ (keysOf c.firstOnly).Pairwise (· < ·) ∧
    (keysOf c.secondOnly).Pairwise (· < ·)

/-- **The first tree is split exactly.** -/
theorem first_tree_split (table : List (String × String)) (hfirst : first.WellNamed)
    (hsecond : second.WellNamed) :
    ∃ c, ofCatalogs (Preferences.ofTexts table) first (some second) = .ok c ∧
      SplitsExactly (Preferences.ofTexts table) first second c := by
  choose found hfound using exists_counterpart table second
  refine ⟨_, ofCatalogs_eq hfirst hfound, ?_⟩
  have hhas {e : String × Plugin} {k : Plugin} (hk : found e = some k) : second.Has (k.name, k) :=
    has_of_counterpart hsecond ((hfound e).trans (congrArg Except.ok hk))
  constructor
  case covers =>
    intro n
    exact Split.covers.trans (or_congr mem_keysOf_byName.symm mem_keysOf_byName.symm)
  case apart =>
    intro n hgeneric honly
    exact Split.apart hfirst.shared.distinct (mem_keysOf_byName.1 hgeneric) (mem_keysOf_byName.1 honly)
  case unchanged =>
    intro e he
    exact (Split.mem_firstOnly.1 (mem_byName.1 he)).1
  case generic =>
    rintro ⟨n, c⟩ hc
    obtain ⟨e, he, rfl, hfinds, hunmodified⟩ := Split.mem_generic.1 (mem_byName.1 hc)
    exact ⟨hunmodified, hhas hfinds, e.2, he, (hfound e).trans (congrArg Except.ok hfinds)⟩
  case modified =>
    intro e he m hm hmodified
    have hfinds : found e = some m := Except.ok.inj ((hfound e).symm.trans hm)
    refine ⟨mem_byName.2 (Split.mem_firstOnly.2 ⟨he, fun c hc => ?_⟩), ?_⟩
    · cases hfinds.symm.trans hc
      exact hmodified
    · obtain ⟨m', hm'⟩ := mem_keysOf.1
        (Split.mem_keysOf_modified.2 ⟨e, he, m, hfinds, hmodified, rfl⟩)
      refine ⟨m', lookup_of_mem (nodup_of_sorted (sorted_byName (Split.nodup_secondOnly hsecond)))
        ((mem_secondOnly_iff hsecond).2 (.inl hm')), (Split.mem_of_mem_modified hm').2.1⟩
  case fromSecond =>
    intro e he
    rcases (mem_secondOnly_iff hsecond).1 he with he | ⟨-, he | ⟨he, -⟩⟩
    · obtain ⟨hname, -, e', -, hfinds⟩ := Split.mem_of_mem_modified he
      rw [show e = (e.2.name, e.2) from Prod.ext hname.symm rfl]
      exact hhas hfinds
    · exact .inl he
    · exact .inr he
  case sorted =>
    exact ⟨sorted_byName (hfirst.shared.distinct.sublist Split.sublist_generic),
      sorted_byName (Split.nodup_filter hfirst.shared.distinct _),
      sorted_byName (Split.nodup_secondOnly hsecond)⟩

/-! ### Trees by hand -/

/-- A plugin in a directory, without settings. -/
def plainPlugin (name directory : String) : Plugin := ⟨name, directory, [], none, false⟩

def modifiedPlugin (name directory : String) : Plugin := ⟨name, directory, [], none, true⟩

def emptyTree : Catalog := ⟨[], [], .empty⟩

/-- One plugin has a counterpart in the directory of its name, the other one goes by another name. -/
def petTree : Catalog :=
  ⟨[("Beta", plainPlugin "Beta" "beta"), ("oneko", plainPlugin "oneko" "oneko")], [], .empty⟩

def cursorTree : Catalog :=
  ⟨[("BetaNext", plainPlugin "BetaNext" "Beta")],
    [("CursorBuddy", modifiedPlugin "CursorBuddy" "cursorBuddy")], .empty⟩

theorem renamed_plugin_split : petTree.WellNamed ∧ cursorTree.WellNamed ∧
    ∃ c, ofCatalogs (Preferences.ofTexts Preferences.standardRenames) petTree (some cursorTree) = .ok c ∧
      SplitsExactly (Preferences.ofTexts Preferences.standardRenames) petTree cursorTree c ∧
      ∃ m, c.secondOnly.lookup "CursorBuddy" = some m ∧ m.isModified = true := by
  have hfirst : petTree.WellNamed := ⟨⟨by decide, by decide⟩, ⟨by decide, by decide⟩⟩
  have hsecond : cursorTree.WellNamed := ⟨⟨by decide, by decide⟩, ⟨by decide, by decide⟩⟩
  obtain ⟨c, hc, hsplit⟩ := first_tree_split Preferences.standardRenames hfirst hsecond
  have hrenamed : counterpart? (Preferences.ofTexts Preferences.standardRenames) cursorTree "oneko"
      (plainPlugin "oneko" "oneko") = .ok (some (modifiedPlugin "CursorBuddy" "cursorBuddy")) := rfl
  exact ⟨hfirst, hsecond, c, hc, hsplit,
    (hsplit.modified ("oneko", plainPlugin "oneko" "oneko") (by simp [petTree]) _ hrenamed rfl).2⟩

/-- Of the plugins with one name, one is kept. -/
theorem exists_kept {e : String × Plugin} (hsecond : second.WellNamed)
    (hfound : ∀ e, counterpart? renames second e.1 e.2 = .ok (found e)) (he : second.Has e) :
    ∃ p, second.Has (e.1, p) ∧ (ofCounterparts found first second).Keeps p := by
  by_cases hmet : ∃ f ∈ first.shared, ∃ c, found f = some c ∧ c.name = e.1
  · obtain ⟨f, hf, c, hc, hname⟩ := hmet
    have hhas : second.Has (e.1, c) :=
      hname ▸ has_of_counterpart hsecond ((hfound f).trans (congrArg Except.ok hc))
    cases hmodified : c.isModified with
    | false => exact ⟨c, hhas, f.1, .inl (mem_byName.2 (Split.mem_generic.2 ⟨f, hf, rfl, hc, hmodified⟩))⟩
    | true =>
      -- under the name there is a modified counterpart, if not this one
      obtain ⟨m, hm⟩ := mem_keysOf.1 (Split.mem_keysOf_modified.2 ⟨f, hf, c, hc, hmodified, hname⟩)
      obtain ⟨hmname, -, f', -, hfinds⟩ := Split.mem_of_mem_modified hm
      exact ⟨m, hmname ▸ has_of_counterpart hsecond ((hfound f').trans (congrArg Except.ok hfinds)),
        e.1, .inr ((mem_secondOnly_iff hsecond).2 (.inl hm))⟩
  · have hfree : ∀ f ∈ first.shared, ∀ c, found f = some c → c.name ≠ e.1 :=
      fun f hf c hc hname => hmet ⟨f, hf, c, hc, hname⟩
    have hkept {p : Plugin} (hp : (e.1, p) ∈ second.own ∨
        (e.1, p) ∈ second.shared ∧ e.1 ∉ keysOf second.own) :
        (ofCounterparts found first second).Keeps p :=
      ⟨e.1, .inr ((mem_secondOnly_iff hsecond).2 (.inr ⟨hfree, hp⟩))⟩
    by_cases hown : e.1 ∈ keysOf second.own
    · obtain ⟨p, hp⟩ := mem_keysOf.1 hown
      exact ⟨p, .inl hp, hkept (.inl hp)⟩
    · rcases he with he | he
      · exact absurd (mem_keysOf.2 ⟨e.2, he⟩) hown
      · exact ⟨e.2, .inr he, hkept (.inr ⟨he, hown⟩)⟩

/-- How the plugins of a second tree are kept, generic or as its own. -/
structure KeepsNames (renames : Preferences) (first second : Catalog) (c : Categories) : Prop where
  name : ∀ e, second.Has e → ∃ p, second.Has (e.1, p) ∧ c.Keeps p
  /-- So a plugin that has its name to itself is kept. -/
  only : ∀ e, second.Has e → e.1 ∉ keysOf second.own ∨ e.1 ∉ keysOf second.shared → c.Keeps e.2
  unmodified : ∀ e ∈ first.shared, ∀ k, counterpart? renames second e.1 e.2 = .ok (some k) →
    k.isModified = false → (e.1, k) ∈ c.generic
  /-- Where no counterpart has its name, a plugin of the tree's own goes first. -/
  own : ∀ e ∈ second.own, (∀ f ∈ first.shared, ∀ k,
    counterpart? renames second f.1 f.2 = .ok (some k) → k.name ≠ e.1) → e ∈ c.secondOnly

/-- **The second tree is kept name by name.** -/
theorem second_tree_kept (table : List (String × String)) (hfirst : first.WellNamed)
    (hsecond : second.WellNamed) :
    ∃ c, ofCatalogs (Preferences.ofTexts table) first (some second) = .ok c ∧
      KeepsNames (Preferences.ofTexts table) first second c := by
  choose found hfound using exists_counterpart table second
  refine ⟨_, ofCatalogs_eq hfirst hfound, ?_⟩
  constructor
  case name => exact fun e he => exists_kept hsecond hfound he
  case only =>
    intro e he halone
    obtain ⟨p, hp, hkept⟩ := exists_kept hsecond hfound he
    rwa [hsecond.eq_of_only he hp halone]
  case unmodified =>
    intro e he k hk hunmodified
    have hfinds : found e = some k := Except.ok.inj ((hfound e).symm.trans hk)
    exact mem_byName.2 (Split.mem_generic.2 ⟨e, he, rfl, hfinds, hunmodified⟩)
  case own =>
    intro e he hfree
    exact (mem_secondOnly_iff hsecond).2 (.inr ⟨fun f hf c hc =>
      hfree f hf c ((hfound f).trans (congrArg Except.ok hc)), .inl he⟩)

/-- Two plugins of one name in the directories of a tree. -/
def namesakes : Catalog :=
  ⟨[("Tray", plainPlugin "Tray" "tray")], [("Tray", plainPlugin "Tray" "systemTray")], .empty⟩

theorem own_namesake_kept : emptyTree.WellNamed ∧ namesakes.WellNamed ∧
    ∃ c, ofCatalogs (Preferences.ofTexts []) emptyTree (some namesakes) = .ok c ∧
      KeepsNames (Preferences.ofTexts []) emptyTree namesakes c ∧
      ("Tray", plainPlugin "Tray" "systemTray") ∈ c.secondOnly := by
  have hfirst : emptyTree.WellNamed := ⟨⟨by decide, by decide⟩, ⟨by decide, by decide⟩⟩
  have hsecond : namesakes.WellNamed := ⟨⟨by decide, by decide⟩, ⟨by decide, by decide⟩⟩
  obtain ⟨c, hc, hkeeps⟩ := second_tree_kept [] hfirst hsecond
  exact ⟨hfirst, hsecond, c, hc, hkeeps, hkeeps.own _ List.mem_cons_self nofun⟩

/-- The other namesake is not kept. -/
theorem shared_namesake_lost : emptyTree.WellNamed ∧ namesakes.WellNamed ∧
    ∃ c, ofCatalogs (Preferences.ofTexts []) emptyTree (some namesakes) = .ok c ∧
      ¬ ∀ e ∈ namesakes.shared ++ namesakes.own, c.Keeps e.2 := by
  refine ⟨⟨⟨by decide, by decide⟩, ⟨by decide, by decide⟩⟩,
    ⟨⟨by decide, by decide⟩, ⟨by decide, by decide⟩⟩, _, rfl, fun hall => ?_⟩
  obtain ⟨n, hn | hn⟩ := hall ("Tray", plainPlugin "Tray" "tray") List.mem_cons_self
  · exact absurd (mem_byName.1 hn) List.not_mem_nil
  · have hn : (n, plainPlugin "Tray" "tray") ∈ [("Tray", plainPlugin "Tray" "systemTray")] :=
      mem_byName.1 hn
    have hdirectory : "tray" = "systemTray" := congrArg (·.2.directory) (List.mem_singleton.1 hn)
    exact absurd hdirectory (by decide)

end Trees

end Categories
end SettingsHarvest
