import SettingsHarvest.Proofs.Aliases
import SettingsHarvest.Proofs.Mentions
import SettingsHarvest.Proofs.Omission

/-! Settings that are hidden.

A settings object can be read with its hidden settings or without them. What is read without them is what
is read with them, less the entries whose object literals say `hidden: true`, at every level of the tree
(`hiding_prunes`). The two readings go member by member (`memberEntry_pruned`): a hidden member is passed
over before anything else is asked about it, so the reading that keeps it has more to read and answers
only if the other one does. Entries are found again under their keys, which is why no key may be repeated. -/
namespace SettingsHarvest
open Syntax

/-! ### Keys that are not repeated -/

theorem eq_of_nodup_filterMap {α β : Type} {f : α → Option β} {items : List α}
    (h : (items.filterMap f).Nodup) {a a' : α} {b : β} (ha : a ∈ items) (ha' : a' ∈ items)
    (hb : f a = some b) (hb' : f a' = some b) : a = a' := by
  induction items with
  | nil => cases ha
  | cons x rest ih =>
    have hmem {c : α} (hc : c ∈ rest) (hfc : f c = some b) : b ∈ rest.filterMap f :=
      List.mem_filterMap.2 ⟨c, hc, hfc⟩
    rcases List.mem_cons.1 ha with rfl | hrest <;> rcases List.mem_cons.1 ha' with rfl | hrest'
    · rfl
    · rw [List.filterMap_cons_some hb, List.nodup_cons] at h
      exact absurd (hmem hrest' hb') h.1
    · rw [List.filterMap_cons_some hb', List.nodup_cons] at h
      exact absurd (hmem hrest hb) h.1
    · refine ih ?_ hrest hrest'
      cases hx : f x with
      | none => rwa [List.filterMap_cons_none hx] at h
      | some c =>
        rw [List.filterMap_cons_some hx, List.nodup_cons] at h
        exact h.2

namespace Syntax.Site

/-- The key that a pair is spelled with, if it can be read. -/
def pairKey? (member : Site) : Option String :=
  if member.hasKind .pair then member.memberKey?.toOption.join else none

/-- No object literal in a site has two pairs with one key. -/
def DistinctKeys (s : Site) : Prop :=
  ∀ object ∈ s.walk, object.hasKind .object = true → (object.named.filterMap pairKey?).Nodup

theorem pairKey_eq_some {member : Site} {key : String} :
    member.pairKey? = some key ↔ member.hasKind .pair = true ∧ member.memberKey? = .ok (some key) := by
  unfold pairKey?
  split
  · next hpair =>
    cases hkey : member.memberKey? with
    | error f => simp [Except.toOption]
    | ok k => simp [Except.toOption, hpair]
  · next hpair => simp [hpair]

theorem DistinctKeys.self {object : Site} (h : object.DistinctKeys) (hobject : object.hasKind .object = true) :
    (object.named.filterMap pairKey?).Nodup := h object object.mem_walk_self hobject

theorem DistinctKeys.value {object pair v : Site} (h : object.DistinctKeys) (hpair : pair ∈ object.named)
    (hv : pair.pairValue? = some v) : v.unwrap.DistinctKeys := by
  intro o ho
  obtain ⟨n, hn, rfl⟩ := List.mem_map.1 hpair
  exact h o (mem_walk_inside (List.mem_filter.1 hn).1 (mem_walk_part? hv (mem_walk_unwrap ho)))

/-! ### What a literal says -/

/-- Whether an object literal says `key: true`. -/
def saysTrue (object : Site) (key : String) : Bool :=
  object.named.any fun m => m.pairKey? == some key && m.pairValue?.any isTrue

/-- What the pair of a key holds. -/
def under? (object : Site) (key : String) : Option Site :=
  (object.named.find? (·.pairKey? == some key)).bind fun pair => pair.pairValue?.map unwrap

theorem under_eq {object pair : Site} {key : String} (h : (object.named.filterMap pairKey?).Nodup)
    (hpair : pair ∈ object.named) (hkey : pair.pairKey? = some key) :
    object.under? key = pair.pairValue?.map unwrap := by
  unfold under?
  cases hfound : object.named.find? (·.pairKey? == some key) with
  | none => exact absurd hkey (by simpa using List.find?_eq_none.1 hfound pair hpair)
  | some other =>
    have hother : other.pairKey? = some key := by simpa using List.find?_some hfound
    rw [eq_of_nodup_filterMap h (List.mem_of_find?_eq_some hfound) hpair hother hkey]
    rfl

/-- Keys of pairs that can all be read. -/
def IsLegible (object : Site) : Prop :=
  ∀ m ∈ object.named, m.hasKind .pair = true → ∃ key, m.memberKey? = .ok key

section Flags

variable {object : Site} {key : String} (hobject : object.hasKind .object = true)

include hobject

theorem propertyValue_eq : object.propertyValue? key = firstSome (fun p => do
    if (← p.memberKey?) == some key then return p.pairValue? else return none)
    (object.named.filter (·.hasKind .pair)) := if_pos hobject

/-- The literal says what the pair that is found says: no other one has the key. -/
theorem saysTrue_of_property {v : Site} (hkeys : (object.named.filterMap pairKey?).Nodup)
    (h : object.propertyValue? key = .ok (some v)) : object.saysTrue key = v.isTrue := by
  rw [propertyValue_eq hobject] at h
  obtain ⟨pair, hpair, hread⟩ := exists_of_firstSome h
  obtain ⟨hnamed, hkind⟩ := List.mem_filter.1 hpair
  obtain ⟨k, hk, hread⟩ := bind_eq_ok.1 hread
  split at hread
  · next hkey =>
    have hspelled : pair.pairKey? = some key :=
      pairKey_eq_some.2 ⟨hkind, hk.trans (congrArg Except.ok (eq_of_beq hkey))⟩
    have hvalue : pair.pairValue? = some v := pure_eq_ok.1 hread
    cases htrue : v.isTrue with
    | true =>
      refine List.any_eq_true.2 ⟨pair, hnamed, ?_⟩
      rw [hspelled, hvalue, Option.any_some, htrue, beq_self_eq_true]
      rfl
    | false =>
      refine List.any_eq_false.2 fun m hm hsays => ?_
      rw [Bool.and_eq_true, beq_iff_eq] at hsays
      cases eq_of_nodup_filterMap hkeys hnamed hm hspelled hsays.1
      rw [hvalue, Option.any_some, htrue] at hsays
      cases hsays.2
  · cases pure_eq_ok.1 hread

/-- Without such a pair the literal does not say so. -/
theorem saysTrue_of_no_property (h : object.propertyValue? key = .ok none) :
    object.saysTrue key = false := by
  rw [propertyValue_eq hobject] at h
  refine List.any_eq_false.2 fun m hm hsays => ?_
  rw [Bool.and_eq_true, beq_iff_eq, pairKey_eq_some] at hsays
  obtain ⟨⟨hkind, hk⟩, htrue⟩ := hsays
  have hread := forall_of_firstSome h m (List.mem_filter.2 ⟨hm, hkind⟩)
  rw [hk] at hread
  dsimp only [bind, Except.bind] at hread
  rw [if_pos (beq_self_eq_true _)] at hread
  have hvalue : m.pairValue? = none := pure_eq_ok.1 hread
  rw [hvalue] at htrue
  cases htrue

/-- A flag is what the literal says, if no key is repeated. -/
theorem flagMember_eq {b : Bool} (hkeys : (object.named.filterMap pairKey?).Nodup)
    (h : object.flagMember key = .ok b) : b = object.saysTrue key := by
  obtain ⟨v?, hv, h⟩ := bind_eq_ok.1 h
  cases pure_eq_ok.1 h
  obtain ⟨property?, hproperty, hv⟩ := bind_eq_ok.1 hv
  cases property? with
  | some v =>
    cases pure_eq_ok.1 hv
    exact (saysTrue_of_property hobject hkeys hproperty).symm
  | none =>
    rw [saysTrue_of_no_property hobject hproperty]
    dsimp only at hv
    rw [if_pos hobject] at hv
    cases pure_eq_ok.1 hv
    -- a name that is written alone is no literal
    cases hfound : object.named.find? (·.isShorthand key) with
    | none => rfl
    | some m =>
      have hshorthand := List.find?_some hfound
      rw [isShorthand, Bool.and_eq_true] at hshorthand
      rw [Option.any_some, isTrue, unwrap_eq_self hshorthand.1 rfl]
      exact hasKind_ne hshorthand.1 (by decide)

theorem IsLegible.exists_propertyValue (h : object.IsLegible) (key : String) :
    ∃ v?, object.propertyValue? key = .ok v? := by
  rw [propertyValue_eq hobject]
  refine exists_firstSome fun m hm => ?_
  obtain ⟨hnamed, hkind⟩ := List.mem_filter.1 hm
  obtain ⟨k, hk⟩ := h m hnamed hkind
  rw [hk]
  dsimp only [bind, Except.bind]
  split <;> exact ⟨_, rfl⟩

/-- Flags can be told where all keys can be read. -/
theorem IsLegible.exists_flag (h : object.IsLegible) (key : String) :
    ∃ b, object.flagMember key = .ok b := by
  obtain ⟨v?, hv⟩ := h.exists_propertyValue hobject key
  unfold flagMember memberValue?
  rw [hv]
  cases v? with
  | some v => exact ⟨_, rfl⟩
  | none =>
    dsimp only [bind, Except.bind]
    rw [if_pos hobject]
    exact ⟨_, rfl⟩

theorem isLegible_of_hasMember (h : object.hasMember key = .ok false) : object.IsLegible := by
  unfold hasMember at h
  rw [if_pos hobject] at h
  obtain ⟨found, hfound, h⟩ := bind_eq_ok.1 h
  intro m hm hkind
  have hnone : found = none := by simpa using pure_eq_ok.1 h
  have hread := forall_of_firstSome (hnone ▸ hfound) m hm
  rw [isShorthand, hasKind_ne hkind (by decide), if_neg (by simp), hkind, Bool.true_or, if_pos rfl] at hread
  obtain ⟨k, hk, -⟩ := bind_eq_ok.1 hread
  exact ⟨k, hk⟩

theorem isLegible_of_memberValue (h : object.memberValue? key = .ok none) : object.IsLegible := by
  obtain ⟨property?, hproperty, h⟩ := bind_eq_ok.1 h
  rw [propertyValue_eq hobject] at hproperty
  cases property? with
  | some v => cases pure_eq_ok.1 h
  | none =>
    intro m hm hkind
    have hread := forall_of_firstSome hproperty m (List.mem_filter.2 ⟨hm, hkind⟩)
    obtain ⟨k, hk, -⟩ := bind_eq_ok.1 hread
    exact ⟨k, hk⟩

theorem isLegible_of_isGroup (h : object.isGroup = .ok true) : object.IsLegible := by
  obtain ⟨typed, htyped, h⟩ := bind_eq_ok.1 h
  split at h
  · cases pure_eq_ok.1 h
  · next huntyped =>
    rw [Bool.not_eq_true] at huntyped
    exact isLegible_of_hasMember hobject (huntyped ▸ htyped)

end Flags

end Syntax.Site

/-! ### Flags of settings -/

namespace Project

variable {p : Project} {object : Site}

/-- A default that is written is not missing, and no getter. -/
theorem shapeOf_written {init : Site} {literal : Option Value} {shape : Shape}
    (h : p.shapeOf init literal = .ok shape) : shape ≠ .absent ∧ shape ≠ .getter := by
  cases literal with
  | some v =>
    cases pure_eq_ok.1 h
    decide
  | none =>
    have hmem := shapeOf_mem h
    constructor <;> rintro rfl <;> revert hmem <;> decide

/-- Where no default is found, all keys have been read. -/
theorem isLegible_of_absent (hobject : object.hasKind .object = true) {e : Evidence}
    (h : p.inspectDefault object = .ok e) (habsent : e.shape = .absent) : object.IsLegible := by
  obtain ⟨getter, -, h⟩ := bind_eq_ok.1 h
  split at h
  · cases pure_eq_ok.1 h
    cases habsent
  · obtain ⟨init?, hinit, h⟩ := bind_eq_ok.1 h
    cases init? with
    | none => exact Site.isLegible_of_memberValue hobject hinit
    | some init => exact absurd habsent (shapeOf_written (inspectedFrom_inspectInitializer h).shape).1

/-- What is said of a setting being hidden is what its literal says. -/
theorem extractSetting_hidden {name : String} {s : Setting}
    (h : p.extractSetting name object = .ok (.ok s)) : object.flagMember "hidden" = .ok s.hidden := by
  obtain ⟨i, -, h⟩ := bind_eq_ok.1 h
  split at h
  · cases pure_eq_ok.1 h
  · obtain ⟨⟨target, default⟩, -, h⟩ := bind_eq_ok.1 h
    dsimp only at h
    split at h
    · cases pure_eq_ok.1 h
    · split at h
      · cases pure_eq_ok.1 h
      · obtain ⟨description, -, h⟩ := bind_eq_ok.1 h
        obtain ⟨example?, -, h⟩ := bind_eq_ok.1 h
        obtain ⟨hidden, hhidden, h⟩ := bind_eq_ok.1 h
        obtain ⟨restartNeeded, -, h⟩ := bind_eq_ok.1 h
        cases Except.ok.inj (pure_eq_ok.1 h)
        exact hhidden

/-- The flag of a setting that was read can be told, whether there is a setting or not. -/
theorem exists_flag_of_extractSetting (hobject : object.hasKind .object = true) {name : String}
    {outcome : Outcome Setting} (h : p.extractSetting name object = .ok outcome) :
    ∃ b, object.flagMember "hidden" = .ok b := by
  cases outcome with
  | ok s => exact ⟨_, extractSetting_hidden h⟩
  | error f =>
    obtain ⟨i, hi, -, habsent, -⟩ := (extractSetting_error_iff name).1 h
    exact (isLegible_of_absent hobject (inspect_parts hi).2.2 habsent).exists_flag hobject "hidden"

end Project

/-! ### Pruning -/

mutual
/-- An entry less what is hidden inside it, given the literal it was read from. -/
def Entry.prune : Site → Entry → Entry
  | _, .setting s => .setting s
  | object, .group name entries => .group name (pruneEntries object entries)

/-- Entries less those whose object literals say `hidden: true`, at every level, given the literal they
were read from. -/
def pruneEntries : Site → List (String × Entry) → List (String × Entry)
  | _, [] => []
  | object, (key, entry) :: rest =>
    match object.under? key with
    | none => (key, entry) :: pruneEntries object rest
    | some inner =>
      if inner.saysTrue "hidden" then pruneEntries object rest
      else (key, entry.prune inner) :: pruneEntries object rest
end

/-- What is left of one entry. -/
def pruneMember (object : Site) (entry : String × Entry) : Option (String × Entry) :=
  match object.under? entry.1 with
  | none => some entry
  | some inner => if inner.saysTrue "hidden" then none else some (entry.1, entry.2.prune inner)

theorem pruneEntries_eq (object : Site) (entries : Entries) :
    pruneEntries object entries = entries.filterMap (pruneMember object) := by
  induction entries with
  | nil => rfl
  | cons entry rest ih =>
    obtain ⟨key, entry⟩ := entry
    rw [pruneEntries, List.filterMap_cons, pruneMember]
    dsimp only
    cases object.under? key with
    | none =>
      dsimp only
      rw [ih]
    | some inner =>
      dsimp only
      rw [ih]
      split <;> rfl

theorem key_of_pruneMember {object : Site} {entry left : String × Entry}
    (h : pruneMember object entry = some left) : left.1 = entry.1 := by
  unfold pruneMember at h
  split at h
  · cases h
    rfl
  · split at h
    · cases h
    · cases h
      rfl

theorem keysOf_pruneEntries (object : Site) (entries : Entries) :
    (keysOf (pruneEntries object entries)).Sublist (keysOf entries) := by
  rw [pruneEntries_eq]
  induction entries with
  | nil => exact .slnil
  | cons entry rest ih =>
    rw [keysOf_cons]
    cases hleft : pruneMember object entry with
    | none =>
      rw [List.filterMap_cons_none hleft]
      exact ih.cons _
    | some left =>
      rw [List.filterMap_cons_some hleft, keysOf_cons, key_of_pruneMember hleft]
      exact ih.cons_cons _

/-! ### One member -/

namespace Project

variable {p : Project} {group group' : Site → Attempt Entries} {object pair inner : Site} {key : String}

/-- A member that holds an object literal is left out, a group or a setting. -/
theorem memberEntry_object {retainHidden : Bool} (hkey : pair.memberKey? = .ok (some key))
    (hvalue : pair.pairValue?.map Site.unwrap = some inner) (hobject : inner.hasKind .object = true) :
    p.entryOf? retainHidden group pair = (do
      if ← leavesOut retainHidden inner then return none
      if ← inner.isGroup then return some (key, .group key (← group inner))
      match ← p.extractSetting key inner with
      | .ok s => return some (key, .setting s)
      | .error _ => return none) := by
  rw [entryOf?, hkey, hvalue]
  dsimp only [bind, Except.bind]
  rw [hobject]
  rfl

/-- A member holds an object literal under a key, or it comes to nothing whatever is kept. -/
theorem memberEntry_cases {retainHidden : Bool} {found : Option (String × Entry)}
    (h : p.entryOf? retainHidden group pair = .ok found) :
    (found = none ∧ ∀ retainHidden group, p.entryOf? retainHidden group pair = .ok none) ∨
      ∃ key inner, pair.memberKey? = .ok (some key) ∧ pair.pairValue?.map Site.unwrap = some inner ∧
        inner.hasKind .object = true := by
  have hnothing (hnone : ∀ retainHidden group, p.entryOf? retainHidden group pair = .ok none) :
      found = none ∧ ∀ retainHidden group, p.entryOf? retainHidden group pair = .ok none :=
    ⟨Except.ok.inj (h.symm.trans (hnone retainHidden group)), hnone⟩
  obtain ⟨key?, hkey, -⟩ := bind_eq_ok.1 h
  cases key? with
  | none =>
    refine .inl (hnothing fun _ _ => ?_)
    rw [entryOf?, hkey]
    rfl
  | some key =>
    cases hvalue : pair.pairValue?.map Site.unwrap with
    | none =>
      refine .inl (hnothing fun _ _ => ?_)
      rw [entryOf?, hkey, hvalue]
      rfl
    | some inner =>
      cases hobject : inner.hasKind .object with
      | false =>
        refine .inl (hnothing fun _ _ => ?_)
        rw [entryOf?, hkey, hvalue]
        dsimp only [bind, Except.bind]
        rw [hobject]
        rfl
      | true => exact .inr ⟨key, inner, hkey, rfl, hobject⟩

/-- A literal that is read with all that is hidden tells whether it is hidden, as a group or as a setting. -/
theorem exists_flag_of_memberEntry (hkey : pair.memberKey? = .ok (some key))
    (hvalue : pair.pairValue?.map Site.unwrap = some inner) (hobject : inner.hasKind .object = true)
    {found : Option (String × Entry)} (h : p.entryOf? true group pair = .ok found) :
    ∃ b, inner.flagMember "hidden" = .ok b := by
  rw [memberEntry_object hkey hvalue hobject] at h
  obtain ⟨kept, hkept, h⟩ := bind_eq_ok.1 h
  cases pure_eq_ok.1 hkept
  obtain ⟨grouped, hgrouped, h⟩ := bind_eq_ok.1 h
  cases grouped with
  | true => exact (Site.isLegible_of_isGroup hobject hgrouped).exists_flag hobject "hidden"
  | false =>
    obtain ⟨outcome, houtcome, -⟩ := bind_eq_ok.1 h
    exact exists_flag_of_extractSetting hobject houtcome

/-- **One member, hidden or not.** A member that is read with all that is hidden is read without it too,
and comes to what is left of its entry. -/
theorem memberEntry_pruned (hnodup : (object.named.filterMap Site.pairKey?).Nodup)
    (hpair : pair ∈ object.named) (hkind : pair.hasKind .pair = true)
    (hkeys : ∀ inner, pair.pairValue?.map Site.unwrap = some inner → inner.hasKind .object = true →
      (inner.named.filterMap Site.pairKey?).Nodup)
    (hgroup : ∀ inner entries, pair.pairValue?.map Site.unwrap = some inner →
      inner.hasKind .object = true → group inner = .ok entries →
      group' inner = .ok (pruneEntries inner entries))
    {found : Option (String × Entry)} (h : p.entryOf? true group pair = .ok found) :
    p.entryOf? false group' pair = .ok (found.bind (pruneMember object)) := by
  rcases memberEntry_cases h with ⟨rfl, hnone⟩ | ⟨key, inner, hkey, hvalue, hobject⟩
  · exact hnone false group'
  obtain ⟨b, hb⟩ := exists_flag_of_memberEntry hkey hvalue hobject h
  have hunder : object.under? key = some inner :=
    (Site.under_eq hnodup hpair (Site.pairKey_eq_some.2 ⟨hkind, hkey⟩)).trans hvalue
  have hsays := Site.flagMember_eq hobject (hkeys inner hvalue hobject) hb
  have hleaves : leavesOut false inner = .ok b := hb
  have hleft (entry : Entry) : pruneMember object (key, entry) =
      if b then none else some (key, entry.prune inner) := by
    rw [pruneMember, hunder, hsays]
  rw [memberEntry_object hkey hvalue hobject] at h ⊢
  obtain ⟨kept, hkept, h⟩ := bind_eq_ok.1 h
  cases pure_eq_ok.1 hkept
  obtain ⟨grouped, hgrouped, h⟩ := bind_eq_ok.1 h
  rw [hleaves]
  cases grouped with
  | true =>
    obtain ⟨entries, hentries, h⟩ := bind_eq_ok.1 h
    cases pure_eq_ok.1 h
    rw [Option.bind_some, hleft]
    cases b with
    | true => rfl
    | false =>
      dsimp only [bind, Except.bind]
      rw [hgrouped, hgroup inner entries hvalue hobject hentries]
      rfl
  | false =>
    obtain ⟨outcome, houtcome, h⟩ := bind_eq_ok.1 h
    cases b with
    | true =>
      cases outcome <;> cases pure_eq_ok.1 h
      · rfl
      · rw [Option.bind_some, hleft]
        rfl
    | false =>
      dsimp only [bind, Except.bind]
      rw [hgrouped, houtcome]
      cases outcome <;> cases pure_eq_ok.1 h
      · rfl
      · rw [Option.bind_some, hleft]
        rfl

/-- A member that comes to an entry holds an object literal that is kept, and the entry is the setting or
the group that it declares. -/
structure MakesEntry (p : Project) (retainHidden : Bool) (group : Site → Attempt Entries)
    (pair inner : Site) (entry : String × Entry) : Prop where
  key : pair.memberKey? = .ok (some entry.1)
  kept : leavesOut retainHidden inner = .ok false
  read : (∃ s, entry.2 = .setting s ∧ p.extractSetting entry.1 inner = .ok (.ok s)) ∨
    ∃ entries, entry.2 = .group entry.1 entries ∧ group inner = .ok entries

theorem exists_makesEntry {retainHidden : Bool} {entry : String × Entry}
    (h : p.entryOf? retainHidden group pair = .ok (some entry)) :
    ∃ inner, p.MakesEntry retainHidden group pair inner entry := by
  obtain ⟨key?, hkey, h⟩ := bind_eq_ok.1 h
  split at h
  · next key inner hvalue =>
    split at h
    · cases pure_eq_ok.1 h
    · obtain ⟨left, hleft, h⟩ := bind_eq_ok.1 h
      split at h
      · cases pure_eq_ok.1 h
      · next hkept =>
        rw [Bool.not_eq_true] at hkept
        rw [hkept] at hleft
        obtain ⟨grouped, -, h⟩ := bind_eq_ok.1 h
        split at h
        · obtain ⟨entries, hentries, h⟩ := bind_eq_ok.1 h
          cases pure_eq_ok.1 h
          exact ⟨inner, hkey, hleft, .inr ⟨entries, rfl, hentries⟩⟩
        · obtain ⟨outcome, houtcome, h⟩ := bind_eq_ok.1 h
          cases outcome with
          | error f => cases pure_eq_ok.1 h
          | ok s =>
            cases pure_eq_ok.1 h
            exact ⟨inner, hkey, hleft, .inl ⟨s, rfl, houtcome⟩⟩
  · cases pure_eq_ok.1 h

/-! ### All members -/

/-- Keys of entries come from pairs, in their order. -/
theorem keysOf_found {retainHidden : Bool} {pairs : List Site} {found : List (Option (String × Entry))}
    (h : pairs.mapM (p.entryOf? retainHidden group) = .ok found)
    (hkinds : ∀ pair ∈ pairs, pair.hasKind .pair = true) :
    (keysOf (found.filterMap id)).Sublist (pairs.filterMap Site.pairKey?) := by
  induction pairs generalizing found with
  | nil =>
    cases pure_eq_ok.1 h
    exact .slnil
  | cons pair rest ih =>
    rw [List.mapM_cons] at h
    obtain ⟨first, hfirst, h⟩ := bind_eq_ok.1 h
    obtain ⟨others, hothers, h⟩ := bind_eq_ok.1 h
    cases pure_eq_ok.1 h
    obtain ⟨hkind, hkinds⟩ := List.forall_mem_cons.1 hkinds
    cases first with
    | none =>
      rw [List.filterMap_cons_none rfl]
      exact (ih hothers hkinds).trans ((List.sublist_cons_self pair rest).filterMap _)
    | some entry =>
      obtain ⟨inner, hmakes⟩ := exists_makesEntry hfirst
      rw [List.filterMap_cons_some (f := id) (b := entry) rfl, keysOf_cons,
        List.filterMap_cons_some (Site.pairKey_eq_some.2 ⟨hkind, hmakes.key⟩)]
      exact (ih hothers hkinds).cons_cons _

/-- What is read without hidden settings is what is read with them, pruned. -/
theorem extractWithin_pruned {depth : Nat} {all : Entries} (hobject : object.hasKind .object = true)
    (hkeys : object.DistinctKeys) (h : p.extractWithin true depth object = .ok all) :
    p.extractWithin false depth object = .ok (pruneEntries object all) := by
  induction depth generalizing object all with
  | zero =>
    cases h
    rfl
  | succ depth ih =>
    have hnodup := hkeys.self hobject
    rw [extractWithin, entriesOf_eq] at h ⊢
    obtain ⟨found, hfound, hall⟩ := exists_of_map h
    have hinside (pair : Site) (hpair : pair ∈ object.named) (inner : Site)
        (hvalue : pair.pairValue?.map Site.unwrap = some inner) : inner.DistinctKeys := by
      obtain ⟨v, hv, rfl⟩ := Option.map_eq_some_iff.1 hvalue
      exact hkeys.value hpair hv
    have hpruned := mapM_eq_map (g := fun entry => entry.bind (pruneMember object)) hfound
      fun pair hpair entry hentry =>
        have hnamed := (List.mem_filter.1 hpair).1
        memberEntry_pruned hnodup hnamed (List.mem_filter.1 hpair).2
          (fun inner hvalue hinner => (hinside pair hnamed inner hvalue).self hinner)
          (fun inner entries hvalue hinner => ih hinner (hinside pair hnamed inner hvalue)) hentry
    have hdistinct : (keysOf (found.filterMap id)).Nodup :=
      ((keysOf_found hfound fun _ hpair => (List.mem_filter.1 hpair).2).trans
        (List.filter_sublist.filterMap _)).nodup hnodup
    rw [assignAll_of_nodup hdistinct] at hall
    have hleft : (found.map fun entry => entry.bind (pruneMember object)).filterMap id =
        pruneEntries object all := by
      rw [← hall, pruneEntries_eq, List.filterMap_map, List.filterMap_filterMap]
      rfl
    have hkept : (keysOf (pruneEntries object all)).Nodup :=
      (keysOf_pruneEntries object all).nodup (hall ▸ hdistinct)
    rw [hpruned, Except.map, hleft, assignAll_of_nodup hkept]

/-- Without hidden settings, no setting at the end of any path is hidden. -/
theorem leaf_not_hidden {depth : Nat} {entries : Entries} {path : List String} {s : Setting}
    (h : p.extractWithin false depth object = .ok entries) (hleaf : Leaf entries path s) :
    s.hidden = false := by
  induction depth generalizing object entries path with
  | zero =>
    cases h
    cases hleaf <;> contradiction
  | succ depth ih =>
    rw [extractWithin, entriesOf_eq] at h
    obtain ⟨found, hfound, rfl⟩ := exists_of_map h
    have hmakes {entry : String × Entry} (hmem : entry ∈ assignAll [] (found.filterMap id)) :
        ∃ pair inner, p.MakesEntry false (p.extractWithin false depth) pair inner entry := by
      refine forall_mem_assignAll (P := fun entry => ∃ pair inner, p.MakesEntry _ _ pair inner entry)
        (List.forall_mem_nil _) (fun entry hentry => ?_) entry hmem
      obtain ⟨found?, hmem, rfl⟩ := List.mem_filterMap.1 hentry
      obtain ⟨pair, -, hread⟩ := (mem_mapM_iff hfound).1 hmem
      exact ⟨pair, exists_makesEntry hread⟩
    cases hleaf with
    | setting hmem =>
      obtain ⟨pair, inner, hmake⟩ := hmakes hmem
      obtain ⟨s', hs', hread⟩ | ⟨entries, hgroup, -⟩ := hmake.read
      · cases hs'
        exact Except.ok.inj ((extractSetting_hidden hread).symm.trans hmake.kept)
      · cases hgroup
    | group hmem hleaf =>
      obtain ⟨pair, inner, hmake⟩ := hmakes hmem
      obtain ⟨s', hs', -⟩ | ⟨entries, hgroup, hread⟩ := hmake.read
      · cases hs'
      · obtain ⟨-, rfl⟩ := Entry.group.inj hgroup
        exact ih hread hleaf

end Project

/-- **Hiding is pruning.** Where no object literal repeats a key, what is read of a literal without hidden
settings is what is read with them, less the entries whose literals say `hidden: true`, at every level;
no setting that is left is hidden. -/
theorem hiding_prunes {p : Project} {object : Site} {all : Entries} (hobject : object.hasKind .object = true)
    (hkeys : object.DistinctKeys) (h : p.extract object true = .ok all) :
    p.extract object false = .ok (pruneEntries object all) ∧
      ∀ path s, Leaf (pruneEntries object all) path s → s.hidden = false := by
  have hpruned := Project.extractWithin_pruned hobject hkeys h
  exact ⟨hpruned, fun path s hleaf => Project.leaf_not_hidden hpruned hleaf⟩

/-- A switch, and one that is hidden. -/
def switches : List Node :=
  [pairLiteral "fast" (objectLiteral [pairLiteral "default" trueLiteral]),
    pairLiteral "debug" (objectLiteral [pairLiteral "default" trueLiteral, pairLiteral "hidden" trueLiteral])]

/-- Switches beside a group of them and a group that is hidden. -/
def groupedSwitches : Site :=
  siteOf (objectLiteral (switches ++ [pairLiteral "more" (objectLiteral switches),
    pairLiteral "lab" (objectLiteral (pairLiteral "hidden" trueLiteral :: switches))]))

theorem hidden_switches_pruned :
    groupedSwitches.hasKind .object = true ∧ groupedSwitches.DistinctKeys ∧
      ∃ all inner, bareProject.extract groupedSwitches true = .ok all ∧
        keysOf all = ["fast", "debug", "more", "lab"] ∧
        bareProject.extract groupedSwitches false = .ok (pruneEntries groupedSwitches all) ∧
        keysOf (pruneEntries groupedSwitches all) = ["fast", "more"] ∧
        ("more", Entry.group "more" inner) ∈ pruneEntries groupedSwitches all ∧ keysOf inner = ["fast"] := by
  have hobject : groupedSwitches.hasKind .object = true := rfl
  have hkeys : groupedSwitches.DistinctKeys := by
    unfold Site.DistinctKeys
    decide +kernel
  obtain ⟨all, hall, hnames, hleft, inner, hmore, hinner⟩ : ∃ all,
      bareProject.extract groupedSwitches true = .ok all ∧ keysOf all = ["fast", "debug", "more", "lab"] ∧
        keysOf (pruneEntries groupedSwitches all) = ["fast", "more"] ∧
        ∃ inner, ("more", Entry.group "more" inner) ∈ pruneEntries groupedSwitches all ∧
          keysOf inner = ["fast"] :=
    ⟨_, rfl, rfl, rfl, _, List.mem_cons_of_mem _ List.mem_cons_self, rfl⟩
  exact ⟨hobject, hkeys, all, inner, hall, hnames, (hiding_prunes hobject hkeys hall).1, hleft, hmore, hinner⟩

end SettingsHarvest
