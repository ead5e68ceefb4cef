import SettingsHarvest.Definition

/-! The order in which a program is searched.

A search keeps the sites it has still to visit on a stack, and takes one after another off it until none
is left (`Stack.Yields`). What it visits is what `Site.walk` lists by recursion. This is an invariant of
any stack, whatever was put on it: a step takes the first of all sites that are still to come, and the
rest of them stay (`Stack.yields_iff`).

Two sites can be equal in all they hold, like the commas of a list. So the order of the document is one
of places: an `Address` says which part to go into at each level below a site, and one address precedes
another if it is around it or further to the left. `Site.IsTour` is the listing of all sites with some
property, each place once and in this order, and `Site.IsFirst` what a search for one of them has to come
to. `Site.search_in_document_order` says this of any search that ends at its first find, of the one for
calls, and of the listing of the variables with a name. -/
namespace SettingsHarvest.Syntax

/-! ### Runs of a search -/

namespace Stack

/-- The sites that are taken off a stack, one after another until it is empty. -/
inductive Yields : Stack → List Site → Prop where
  | done {stack : Stack} (h : stack.next? = none) : Yields stack []
  | step {stack rest : Stack} {s : Site} {sites : List Site} (h : stack.next? = some (s, rest))
      (hrest : Yields rest sites) : Yields stack (s :: sites)

theorem yields_pending (stack : Stack) : stack.Yields stack.pending := by
  -- Each step takes the first of the pending sites off, so the run is as long as their list.
  induction hpending : stack.pending generalizing stack with
  | nil =>
    cases hnext : stack.next? with
    | none => exact .done hnext
    | some found => exact nomatch hpending.symm.trans (pending_of_next? hnext)
  | cons t later ih =>
    cases hnext : stack.next? with
    | none => exact nomatch hpending.symm.trans (pending_of_next?_none hnext)
    | some found =>
      obtain ⟨rfl, hlater⟩ := List.cons.inj (hpending.symm.trans (pending_of_next? hnext))
      exact .step hnext (ih found.2 hlater.symm)

theorem Yields.eq_pending {stack : Stack} {sites : List Site} (h : stack.Yields sites) :
    sites = stack.pending := by
  induction h with
  | done h => exact (pending_of_next?_none h).symm
  | step h _ ih => rw [ih, pending_of_next? h]

/-- A search ends, and it has visited what is on the stack and below it, in the order of the document. -/
theorem yields_iff {stack : Stack} {sites : List Site} : stack.Yields sites ↔ sites = stack.pending :=
  ⟨Yields.eq_pending, fun h => h ▸ stack.yields_pending⟩

end Stack

/-! ### Places -/

/-- Where a site is below another one: the part to go into at each level, counted from the left. -/
abbrev Address := List Nat

/-- The site at an address; the empty address is that of the site itself. -/
def Site.at? (s : Site) : Address → Option Site
  | [] => some s
  | i :: rest => s.parts[i]?.bind fun part => part.at? rest

/-- The order of the document: what is around a place comes before it, and parts come from left to
right, each with everything in it. -/
inductive Address.Precedes (a b : Address) : Prop where
  | around {i : Nat} {rest : Address} (h : b = a ++ i :: rest)
  | left (shared : Address) {rest rest' : Address} {i j : Nat} (h : i < j)
      (ha : a = shared ++ i :: rest) (hb : b = shared ++ j :: rest')

namespace Address

variable {a b : Address} {i j : Nat}

theorem precedes_cons (h : a.Precedes b) : Precedes (i :: a) (i :: b) := by
  cases h with
  | around h => exact .around (congrArg _ h)
  | left shared h ha hb => exact .left (i :: shared) h (congrArg _ ha) (congrArg _ hb)

theorem Precedes.ne (h : a.Precedes b) : a ≠ b := by
  rintro rfl
  cases h with
  | around h => exact nomatch List.append_cancel_left ((List.append_nil a).trans h)
  | left _ h ha hb =>
    have hij := List.append_cancel_left (ha.symm.trans hb)
    exact absurd (List.cons.inj hij).1 (Nat.ne_of_lt h)

end Address

namespace Node

mutual

/-- The addresses of everything in a node, in the order of the document. -/
def addresses : Node → List Address
  | token .. => [[]]
  | leaf .. => [[]]
  | tree _ _ parts => [] :: addressesFrom 0 parts

/-- The same for the parts of a node from the `i`th one on. -/
def addressesFrom (i : Nat) : List Node → List Address
  | [] => []
  | n :: rest => (addresses n).map (i :: ·) ++ addressesFrom (i + 1) rest

end

variable {a : Address} {i : Nat} {parts : List Node}

theorem exists_of_mem_addressesFrom (h : a ∈ addressesFrom i parts) :
    ∃ j rest, i ≤ j ∧ a = j :: rest := by
  induction parts generalizing i with
  | nil => cases h
  | cons n later ih =>
    rcases List.mem_append.1 h with h | h
    · obtain ⟨rest, -, rfl⟩ := List.mem_map.1 h
      exact ⟨i, rest, Nat.le_refl i, rfl⟩
    · obtain ⟨j, rest, hij, rfl⟩ := ih h
      exact ⟨j, rest, Nat.le_of_succ_le hij, rfl⟩

mutual

theorem pairwise_addresses : ∀ n : Node, n.addresses.Pairwise Address.Precedes
  | token .. => List.pairwise_singleton ..
  | leaf .. => List.pairwise_singleton ..
  | tree _ _ parts => by
    refine List.pairwise_cons.2 ⟨fun a ha => ?_, pairwise_addressesFrom 0 parts⟩
    obtain ⟨j, rest, -, rfl⟩ := exists_of_mem_addressesFrom ha
    exact .around rfl

theorem pairwise_addressesFrom : ∀ (i : Nat) (parts : List Node),
    (addressesFrom i parts).Pairwise Address.Precedes
  | _, [] => .nil
  | i, n :: later => by
    refine List.pairwise_append.2 ⟨?_, pairwise_addressesFrom (i + 1) later, fun a ha b hb => ?_⟩
    · exact List.pairwise_map.2 ((pairwise_addresses n).imp Address.precedes_cons)
    · obtain ⟨rest, -, rfl⟩ := List.mem_map.1 ha
      obtain ⟨j, rest', hij, rfl⟩ := exists_of_mem_addressesFrom hb
      exact .left [] hij rfl rfl

end

theorem mem_addressesFrom {j : Nat} {part : Node} (hpart : parts[j]? = some part)
    (ha : a ∈ part.addresses) : (i + j) :: a ∈ addressesFrom i parts := by
  induction parts generalizing i j with
  | nil => cases hpart
  | cons n later ih =>
    cases j with
    | zero =>
      cases hpart
      exact List.mem_append_left _ (List.mem_map_of_mem ha)
    | succ j =>
      have hmem : (i + 1 + j) :: a ∈ addressesFrom (i + 1) later := ih hpart
      rw [Nat.add_right_comm] at hmem
      exact List.mem_append_right _ hmem

theorem nil_mem_addresses (n : Node) : [] ∈ n.addresses := by
  cases n <;> exact List.mem_cons_self

theorem cons_mem_addresses {n part : Node} (hpart : n.parts[i]? = some part)
    (ha : a ∈ part.addresses) : i :: a ∈ n.addresses := by
  cases n with
  | token _ _ _ => cases hpart
  | leaf _ _ _ _ => cases hpart
  | tree k r parts =>
    have hmem : (0 + i) :: a ∈ addressesFrom 0 parts := mem_addressesFrom hpart ha
    rw [Nat.zero_add] at hmem
    exact List.mem_cons_of_mem _ hmem

/-- The texts that a node has itself, not through its parts. -/
def ownPieces : Node → List (String × String)
  | tree .. => []
  | n => n.pieces

end Node

namespace Site

variable {s t : Site}

/-! ### What is at the addresses -/

theorem at?_cons {part : Node} {i : Nat} (hpart : s.node.parts[i]? = some part) (a : Address) :
    s.at? (i :: a) = (s.inside part).at? a := by
  rw [at?, parts, List.getElem?_map, hpart]
  rfl

mutual

theorem map_at?_addresses (file : String) (above : List Node) : ∀ n : Node,
    n.addresses.map (at? ⟨file, above, n⟩) = (walkFrom file above n).map some
  | .token .. => rfl
  | .leaf .. => rfl
  | .tree k r parts =>
    congrArg _ (map_at?_addressesFrom (s := ⟨file, above, .tree k r parts⟩) [] parts rfl)

theorem map_at?_addressesFrom {s : Site} : ∀ before later : List Node,
    s.node.parts = before ++ later →
      (Node.addressesFrom before.length later).map s.at? =
        (walkAllFrom s.file (s.node :: s.above) later).map some
  | _, [], _ => rfl
  | before, n :: later, h => by
    have hpart : s.node.parts[before.length]? = some n := by
      rw [h, List.getElem?_append_right (Nat.le_refl _), Nat.sub_self]
      rfl
    have hparts : s.node.parts = (before ++ [n]) ++ later := by
      rw [h, List.append_assoc, List.singleton_append]
    have hlater := map_at?_addressesFrom (before ++ [n]) later hparts
    rw [List.length_append, List.length_singleton] at hlater
    rw [Node.addressesFrom, walkAllFrom, List.map_append, List.map_append, List.map_map, hlater,
      ← map_at?_addresses s.file (s.node :: s.above) n]
    exact congrArg (· ++ _) (List.map_congr_left fun a _ => at?_cons hpart a)

end

theorem mem_addresses_of_at? {a : Address} (h : s.at? a = some t) : a ∈ s.node.addresses := by
  induction a generalizing s with
  | nil => exact s.node.nil_mem_addresses
  | cons i rest ih =>
    obtain ⟨site, hsite, h⟩ := Option.bind_eq_some_iff.1 h
    rw [parts, List.getElem?_map] at hsite
    obtain ⟨part, hpart, rfl⟩ := Option.map_eq_some_iff.1 hsite
    exact Node.cons_mem_addresses hpart (ih h)

mutual

theorem flatMap_ownPieces_walkFrom (file : String) (above : List Node) : ∀ n : Node,
    (walkFrom file above n).flatMap (·.node.ownPieces) = n.pieces
  | .token .. => List.flatMap_singleton ..
  | .leaf .. => List.flatMap_singleton ..
  | .tree k r parts => flatMap_ownPieces_walkAllFrom file (.tree k r parts :: above) parts

theorem flatMap_ownPieces_walkAllFrom (file : String) (above : List Node) : ∀ parts : List Node,
    (walkAllFrom file above parts).flatMap (·.node.ownPieces) = Node.piecesOf parts
  | [] => rfl
  | n :: later => by
    rw [walkAllFrom, List.flatMap_append, flatMap_ownPieces_walkFrom file above n,
      flatMap_ownPieces_walkAllFrom file above later, Node.piecesOf]

end

/-! ### Listings -/

/-- A listing of the sites at and below a site that have a property. -/
structure IsTour (s : Site) (P : Site → Prop) (addresses : List Address) (sites : List Site) : Prop where
  /-- The sites are those at the addresses. -/
  placed : addresses.map s.at? = sites.map some
  /-- Every site with the property is listed, and no other. -/
  complete : ∀ a, a ∈ addresses ↔ ∃ t, s.at? a = some t ∧ P t
  /-- No place is listed twice. -/
  once : addresses.Nodup
  /-- The places are in the order of the document. -/
  ordered : addresses.Pairwise Address.Precedes

theorem isTour_walk (s : Site) : s.IsTour (fun _ => True) s.node.addresses s.walk where
  placed := map_at?_addresses s.file s.above s.node
  complete a := by
    refine ⟨fun ha => ?_, fun ⟨t, ht, _⟩ => mem_addresses_of_at? ht⟩
    have hmem : s.at? a ∈ s.walk.map some :=
      map_at?_addresses s.file s.above s.node ▸ List.mem_map_of_mem ha
    obtain ⟨t, -, ht⟩ := List.mem_map.1 hmem
    exact ⟨t, ht.symm, trivial⟩
  once := s.node.pairwise_addresses.imp Address.Precedes.ne
  ordered := s.node.pairwise_addresses

/-- What is picked from a listing of all sites lists the sites it was picked for. -/
theorem IsTour.filter {addresses : List Address} {sites : List Site} {P : Site → Prop}
    {holds : Site → Bool} (h : s.IsTour (fun _ => True) addresses sites)
    (hP : ∀ t, holds t = true ↔ P t) :
    s.IsTour P (addresses.filter fun a => (s.at? a).any holds) (sites.filter holds) where
  placed := by
    have hfilter := congrArg (List.filter (·.any holds)) h.placed
    rw [List.filter_map, List.filter_map] at hfilter
    exact hfilter
  complete a := by
    rw [List.mem_filter, h.complete, Option.any_eq_true]
    constructor
    · rintro ⟨-, t, ht, hholds⟩
      exact ⟨t, ht, (hP t).1 hholds⟩
    · rintro ⟨t, ht, hPt⟩
      exact ⟨⟨t, ht, trivial⟩, t, ht, (hP t).2 hPt⟩
  once := h.once.filter _
  ordered := h.ordered.filter _

/-- What the search for a site with a property has to come to: the first one in the order of the
document, and nothing only if there is none. -/
def IsFirst (s : Site) (P : Site → Prop) : Option Site → Prop
  | some t => ∃ a, s.at? a = some t ∧ P t ∧ ∀ b u, s.at? b = some u → P u → b ≠ a → a.Precedes b
  | none => ∀ a t, s.at? a = some t → ¬ P t

theorem IsTour.isFirst_head? {addresses : List Address} {sites : List Site} {P : Site → Prop}
    (h : s.IsTour P addresses sites) : s.IsFirst P sites.head? := by
  cases sites with
  | nil =>
    intro a t ht hP
    have hnil : addresses = [] := List.map_eq_nil_iff.1 h.placed
    exact List.not_mem_nil (hnil ▸ (h.complete a).2 ⟨t, ht, hP⟩)
  | cons t later =>
    cases addresses with
    | nil => exact nomatch h.placed
    | cons a rest =>
      obtain ⟨hat, -⟩ := List.cons.inj h.placed
      obtain ⟨u, hu, hP⟩ := (h.complete a).1 List.mem_cons_self
      obtain rfl : t = u := Option.some.inj (hat.symm.trans hu)
      refine ⟨a, hu, hP, fun b u hb hPu hne => ?_⟩
      have hmem : b ∈ a :: rest := (h.complete b).2 ⟨u, hb, hPu⟩
      exact List.rel_of_pairwise_cons h.ordered ((List.mem_cons.1 hmem).resolve_left hne)

/-! ### Searches -/

theorem isFirst_findFirst? {holds : Site → Bool} {P : Site → Prop} (hP : ∀ t, holds t = true ↔ P t) :
    s.IsFirst P (s.findFirst? holds) := by
  rw [findFirst?_eq_find?, ← List.head?_filter]
  exact (s.isTour_walk.filter hP).isFirst_head?

/-- A site of some kind whose name, found in the given part of it, is one plain word. -/
def IsNamed (k : Kind) (part? : Option Site) (name : String) (s : Site) : Prop :=
  s.hasKind k = true ∧ ∃ n, part? = some n ∧ n.hasKind .identifier = true ∧ n.text = name

theorem isNamed_iff {k : Kind} {part? : Option Site} {name : String} :
    (s.hasKind k && part?.any fun n => n.hasKind .identifier && n.text == name) = true ↔
      s.IsNamed k part? name := by
  rw [Bool.and_eq_true, Option.any_eq_true]
  simp only [Bool.and_eq_true, beq_iff_eq]
  rfl

/-- A call of a function by its plain name. -/
def IsCallOf (function : String) (call : Site) : Prop :=
  call.IsNamed .callExpression call.callee? function

/-- A variable with a plain name. -/
def IsVariable (name : String) (declarator : Site) : Prop :=
  declarator.IsNamed .variableDeclarator (declarator.part? .name) name

theorem exists_isTour_declaratorsOf (s : Site) (name : String) :
    ∃ addresses, s.IsTour (IsVariable name) addresses (s.declaratorsOf name) := by
  rw [declaratorsOf_eq]
  exact ⟨_, s.isTour_walk.filter fun _ => isNamed_iff⟩

/-- **A search visits a program as the recursion does: every site at and below its start once, nodes
before their parts and parts from left to right, so that the leaves come as the source has them. The
first call of a function and the variables of a name are found in this order.** -/
theorem search_in_document_order (s : Site) :
    (∀ sites, Stack.Yields [s] sites ↔ sites = s.walk) ∧ s.visited = s.walk ∧
    (∃ addresses, s.IsTour (fun _ => True) addresses s.walk) ∧
    s.walk.flatMap (·.node.ownPieces) = s.node.pieces ∧
    (∀ holds : Site → Bool, s.IsFirst (holds · = true) (s.findFirst? holds)) ∧
    (∀ function, s.IsFirst (IsCallOf function) (s.findCall? function)) ∧
    ∀ name, (∃ addresses, s.IsTour (IsVariable name) addresses (s.declaratorsOf name)) ∧
      s.IsFirst (IsVariable name) (s.declaratorsOf name).head? := by
  refine ⟨fun sites => ?_, s.visited_eq_walk, ⟨_, s.isTour_walk⟩,
    flatMap_ownPieces_walkFrom s.file s.above s.node, fun holds => isFirst_findFirst? fun _ => .rfl,
    fun function => isFirst_findFirst? fun _ => isNamed_iff, fun name => ?_⟩
  · rw [Stack.yields_iff, Stack.pending_singleton]
  · obtain ⟨addresses, htour⟩ := s.exists_isTour_declaratorsOf name
    exact ⟨⟨addresses, htour⟩, htour.isFirst_head?⟩

end Site
end SettingsHarvest.Syntax
