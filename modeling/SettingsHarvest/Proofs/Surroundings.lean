import SettingsHarvest.Syntax.Declaration

/-! Sites and what is around them.

A property that every node of a program has is known of all nodes in and around a site there
(`Site.Throughout`), and it stays known wherever one gets to from that site: down to a part, up to the
program, behind wrappers and `export`, or along the document. -/
namespace SettingsHarvest
open Syntax

namespace Syntax

namespace Node

theorem mem_walk_self (n : Node) : n ∈ n.walk := by
  cases n <;> exact List.mem_cons_self

theorem mem_walkAll {m : Node} {parts : List Node} :
    m ∈ walkAll parts ↔ ∃ part ∈ parts, m ∈ part.walk := by
  induction parts with
  | nil => simp [walkAll]
  | cons n rest ih => simp [walkAll, ih]

theorem mem_walk_of_part {n part m : Node} (hpart : part ∈ n.parts) (h : m ∈ part.walk) :
    m ∈ n.walk := by
  cases n with
  | token _ _ _ => cases hpart
  | leaf _ _ _ _ => cases hpart
  | tree k r parts => exact List.mem_cons_of_mem _ (mem_walkAll.2 ⟨part, hpart, h⟩)

/-- A property of a node and of everything below it. -/
def Throughout (P : Node → Prop) (n : Node) : Prop := ∀ m ∈ n.walk, P m

variable {P : Node → Prop}

theorem Throughout.self {n : Node} (h : n.Throughout P) : P n := h n n.mem_walk_self

theorem Throughout.part {n part : Node} (h : n.Throughout P) (hpart : part ∈ n.parts) :
    part.Throughout P := fun m hm => h m (mem_walk_of_part hpart hm)

end Node

theorem Kind.isWrapper_of_isFunction {k : Kind} : k.isFunction = true → k.isWrapper = false := by
  cases k <;> decide

namespace Site

theorem hasKind_iff {s : Site} {k : Kind} : s.hasKind k = true ↔ s.kind? = some k := beq_iff_eq

theorem kind_eq_of_hasKind {s : Site} {k : Kind} (h : s.hasKind k = true) : s.kind? = some k :=
  eq_of_beq h

theorem hasKind_ne {s : Site} {k k' : Kind} (h : s.hasKind k = true) (hne : k ≠ k') :
    s.hasKind k' = false := by
  cases hk' : s.hasKind k' with
  | false => rfl
  | true =>
    have heq : some k = some k' := (kind_eq_of_hasKind h).symm.trans (kind_eq_of_hasKind hk')
    exact absurd (Option.some.inj heq) hne

/-- Nothing is taken off what is no wrapper. -/
theorem unwrap_eq_self {s : Site} {k : Kind} (h : s.hasKind k = true) (hk : k.isWrapper = false) :
    s.unwrap = s := by
  obtain ⟨file, above, node⟩ := s
  cases node with
  | token | leaf => rfl
  | tree k' r parts =>
    have hkind : k' = k := by simpa [hasKind, Node.hasKind, Node.kind?] using h
    subst hkind
    simp [unwrap, core, hk]

mutual

/-- Wrappers are taken off all at once. -/
theorem core_core (above : List Node) : ∀ n : Node, core (core above n).1 (core above n).2 = core above n
  | .token .. => rfl
  | .leaf .. => rfl
  | .tree k r parts => by
    by_cases hwrapper : k.isWrapper = true
    · cases hinner : (if k == .typeAssertion then coreOfLast (.tree k r parts :: above) parts
          else coreOfFirst (.tree k r parts :: above) parts) with
      | none =>
        have hsame : core above (.tree k r parts) = (above, .tree k r parts) := by
          rw [core, if_pos hwrapper]
          dsimp only
          rw [hinner, Option.getD_none]
        rw [hsame, hsame]
      | some found =>
        have hfound : core above (.tree k r parts) = found := by
          rw [core, if_pos hwrapper]
          dsimp only
          rw [hinner, Option.getD_some]
        rw [hfound]
        split at hinner
        · exact core_of_coreOfLast hinner
        · exact core_of_coreOfFirst hinner
    · have hsame : core above (.tree k r parts) = (above, .tree k r parts) := by
        rw [core, if_neg hwrapper]
      rw [hsame, hsame]

theorem core_of_coreOfFirst {above : List Node} :
    ∀ {parts : List Node} {found : List Node × Node}, coreOfFirst above parts = some found →
      core found.1 found.2 = found
  | [], _, h => nomatch h
  | p :: rest, _, h => by
    unfold coreOfFirst at h
    split at h
    · cases h
      exact core_core above p
    · exact core_of_coreOfFirst h

theorem core_of_coreOfLast {above : List Node} :
    ∀ {parts : List Node} {found : List Node × Node}, coreOfLast above parts = some found →
      core found.1 found.2 = found
  | [], _, h => nomatch h
  | p :: rest, _, h => by
    unfold coreOfLast at h
    split at h
    · next hlast =>
      cases h
      exact core_of_coreOfLast hlast
    · split at h
      · cases h
        exact core_core above p
      · cases h

end

theorem unwrap_unwrap (s : Site) : s.unwrap.unwrap = s.unwrap := by
  simp [unwrap, core_core]

/-- A property of everything in the node at a site and in those around it. -/
structure Throughout (P : Node → Prop) (s : Site) : Prop where
  here : s.node.Throughout P
  above : ∀ n ∈ s.above, n.Throughout P

namespace Throughout

variable {P Q : Node → Prop} {s : Site}

theorem mono (h : s.Throughout P) (hPQ : ∀ n, P n → Q n) : s.Throughout Q :=
  ⟨fun m hm => hPQ m (h.here m hm), fun n hn m hm => hPQ m (h.above n hn m hm)⟩

theorem inside (h : s.Throughout P) {part : Node} (hpart : part ∈ s.node.parts) :
    (s.inside part).Throughout P :=
  ⟨h.here.part hpart, List.forall_mem_cons.2 ⟨h.here, h.above⟩⟩

theorem named (h : s.Throughout P) {t : Site} (ht : t ∈ s.named) : t.Throughout P := by
  obtain ⟨part, hpart, rfl⟩ := List.mem_map.1 ht
  exact h.inside (List.mem_filter.1 hpart).1

theorem part? (h : s.Throughout P) {r : Role} {t : Site} (ht : s.part? r = some t) :
    t.Throughout P := by
  obtain ⟨part, hpart, rfl⟩ := Option.map_eq_some_iff.1 ht
  exact h.inside (List.mem_of_find?_eq_some hpart)

theorem enclosing (h : s.Throughout P) : ∀ t ∈ s.enclosing, t.Throughout P := by
  have hgo (above : List Node) (habove : ∀ n ∈ above, n.Throughout P) :
      ∀ t ∈ Site.enclosing.go s above, t.Throughout P := by
    induction above with
    | nil => exact nofun
    | cons n rest ih =>
      obtain ⟨hn, hrest⟩ := List.forall_mem_cons.1 habove
      exact List.forall_mem_cons.2 ⟨⟨hn, hrest⟩, ih hrest⟩
  exact hgo s.above h.above

theorem program (h : s.Throughout P) : s.program.Throughout P := by
  unfold Site.program
  cases hlast : s.enclosing.getLast? with
  | none => exact h
  | some top => exact h.enclosing top (List.mem_of_getLast? hlast)

/-- What holds of everything in a node and in those around it. -/
def Found (P : Node → Prop) (found : List Node × Node) : Prop :=
  found.2.Throughout P ∧ ∀ n ∈ found.1, n.Throughout P

mutual

theorem core {above : List Node} (habove : ∀ n ∈ above, n.Throughout P) :
    ∀ {n : Node}, n.Throughout P → Found P (Site.core above n)
  | .token .., h => ⟨h, habove⟩
  | .leaf .., h => ⟨h, habove⟩
  | .tree k r parts, h => by
    have hparts : ∀ part ∈ parts, part.Throughout P := fun part hpart => h.part hpart
    have hhere := List.forall_mem_cons.2 ⟨h, habove⟩
    unfold Site.core
    split
    · dsimp only
      split
      · cases hlast : Site.coreOfLast (.tree k r parts :: above) parts with
        | none => exact ⟨h, habove⟩
        | some found => exact coreOfLast hhere hparts hlast
      · cases hfirst : Site.coreOfFirst (.tree k r parts :: above) parts with
        | none => exact ⟨h, habove⟩
        | some found => exact coreOfFirst hhere hparts hfirst
    · exact ⟨h, habove⟩

theorem coreOfFirst {above : List Node} (habove : ∀ n ∈ above, n.Throughout P) :
    ∀ {parts : List Node} {found : List Node × Node}, (∀ part ∈ parts, part.Throughout P) →
      Site.coreOfFirst above parts = some found → Found P found
  | [], _, _, h => nomatch h
  | p :: rest, _, hparts, h => by
    obtain ⟨hp, hrest⟩ := List.forall_mem_cons.1 hparts
    unfold Site.coreOfFirst at h
    split at h
    · cases h
      exact core habove hp
    · exact coreOfFirst habove hrest h

theorem coreOfLast {above : List Node} (habove : ∀ n ∈ above, n.Throughout P) :
    ∀ {parts : List Node} {found : List Node × Node}, (∀ part ∈ parts, part.Throughout P) →
      Site.coreOfLast above parts = some found → Found P found
  | [], _, _, h => nomatch h
  | p :: rest, _, hparts, h => by
    obtain ⟨hp, hrest⟩ := List.forall_mem_cons.1 hparts
    unfold Site.coreOfLast at h
    split at h
    · next hfound =>
      cases h
      exact coreOfLast habove hrest hfound
    · split at h
      · cases h
        exact core habove hp
      · cases h

end

theorem unwrap (h : s.Throughout P) : s.unwrap.Throughout P :=
  let found := core h.above h.here
  ⟨found.1, found.2⟩

mutual

theorem walkFrom {file : String} {above : List Node} (habove : ∀ n ∈ above, n.Throughout P) :
    ∀ {n : Node}, n.Throughout P → ∀ t ∈ Site.walkFrom file above n, t.Throughout P
  | .token .., h => List.forall_mem_singleton.2 ⟨h, habove⟩
  | .leaf .., h => List.forall_mem_singleton.2 ⟨h, habove⟩
  | .tree _ _ parts, h =>
    List.forall_mem_cons.2 ⟨⟨h, habove⟩, walkAllFrom (List.forall_mem_cons.2 ⟨h, habove⟩)
      fun part (hpart : part ∈ parts) => h.part hpart⟩

theorem walkAllFrom {file : String} {above : List Node} (habove : ∀ n ∈ above, n.Throughout P) :
    ∀ {parts : List Node}, (∀ part ∈ parts, part.Throughout P) →
      ∀ t ∈ Site.walkAllFrom file above parts, t.Throughout P
  | [], _ => nofun
  | _ :: _, hparts => by
    obtain ⟨hp, hrest⟩ := List.forall_mem_cons.1 hparts
    exact List.forall_mem_append.2 ⟨walkFrom habove hp, walkAllFrom habove hrest⟩

end

theorem walk (h : s.Throughout P) : ∀ t ∈ s.walk, t.Throughout P := walkFrom h.above h.here

mutual

theorem declaring {above : List Node} (habove : ∀ n ∈ above, n.Throughout P) :
    ∀ {n : Node} {found : List Node × Node}, n.Throughout P →
      Site.declaring above n = some found → Found P found
  | .token .., _, _, hfound => nomatch hfound
  | .leaf .., _, h, hfound => by
    cases hfound
    exact ⟨h, habove⟩
  | .tree k r parts, _, h, hfound => by
    have hparts : ∀ part ∈ parts, part.Throughout P := fun part hpart => h.part hpart
    have hhere := List.forall_mem_cons.2 ⟨h, habove⟩
    unfold Site.declaring at hfound
    split at hfound
    · dsimp only at hfound
      split at hfound
      · exact declaringInRole hhere hparts hfound
      · exact declaringFirst hhere hparts hfound
    · cases hfound
      exact ⟨h, habove⟩

theorem declaringInRole {above : List Node} (habove : ∀ n ∈ above, n.Throughout P) :
    ∀ {parts : List Node} {found : List Node × Node}, (∀ part ∈ parts, part.Throughout P) →
      Site.declaringInRole above parts = some found → Found P found
  | [], _, _, h => nomatch h
  | p :: rest, _, hparts, h => by
    obtain ⟨hp, hrest⟩ := List.forall_mem_cons.1 hparts
    unfold Site.declaringInRole at h
    split at h
    · exact declaring habove hp h
    · exact declaringInRole habove hrest h

theorem declaringFirst {above : List Node} (habove : ∀ n ∈ above, n.Throughout P) :
    ∀ {parts : List Node} {found : List Node × Node}, (∀ part ∈ parts, part.Throughout P) →
      Site.declaringFirst above parts = some found → Found P found
  | [], _, _, h => nomatch h
  | p :: rest, _, hparts, h => by
    obtain ⟨hp, hrest⟩ := List.forall_mem_cons.1 hparts
    unfold Site.declaringFirst at h
    split at h
    · exact declaring habove hp h
    · exact declaringFirst habove hrest h

end

theorem declaringStatement? (h : s.Throughout P) {t : Site} (ht : s.declaringStatement? = some t) :
    t.Throughout P := by
  obtain ⟨found, hfound, rfl⟩ := Option.map_eq_some_iff.1 ht
  have hall := declaring h.above h.here hfound
  exact ⟨hall.1, hall.2⟩

end Throughout
end Site
end Syntax
end SettingsHarvest
