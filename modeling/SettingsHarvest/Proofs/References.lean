import Mathlib.Order.WellFounded
import SettingsHarvest.Evaluation
import SettingsHarvest.Proofs.Legibility

/-! Where references end.

A chain follows at most sixteen names and members, but every member on the way asks for the object it
is read from, and that question is a chain of its own. `Asks` is this relation between a site and the
bases it asks for. Following references runs out of depth exactly on sites with that many questions
inside one another (`denotedWithin_endless_iff`), and it does so at every depth exactly on sites from
which questions lead on without end (`forall_endless_iff`), among them all that ask for themselves.

What a member access evaluates to is the value of the entry that it denotes
(`accessValue_of_object`). -/
namespace SettingsHarvest
open Syntax

namespace Project

variable {p : Project} {s t base object : Site} {depth depth' steps : Nat}
  {object? object'? : Site → Attempt (Option Site)}

/-! ### One step -/

/-- Where one step of a chain gets to: on to another site, or to an end. -/
inductive Followed where
  | toward (next : Site)
  | ended (found : Option Site)

namespace Followed

/-- On to a site behind its wrappers, if there is one. -/
def onward : Option Site → Followed
  | some next => toward next.unwrap
  | none => ended none

/-- On to the value of a member, if there is an object that has it. -/
def intoMember (key : String) : Option Site → Attempt Followed
  | some object => onward <$> object.propertyValue? key
  | none => .ok (ended none)

def resume (rest : Site → Attempt (Option Site)) : Followed → Attempt (Option Site)
  | toward next => rest next
  | ended found => .ok found

end Followed

/-- One name or member followed. -/
def follow (p : Project) (object? : Site → Attempt (Option Site)) (s : Site) : Attempt Followed :=
  if s.hasKind .identifier then Followed.onward <$> p.initializer? s
  else if s.hasKind .memberExpression then
    match s.accessParts? with
    | none => .ok (.ended none)
    | some (base, key) => object? base >>= Followed.intoMember key
  else .ok (.ended (some s))

/-- A chain is one step and the rest of the chain. -/
theorem chain_succ : p.chain object? (steps + 1) s =
    p.follow object? s >>= Followed.resume (p.chain object? steps) := by
  unfold chain follow
  split
  · cases p.initializer? s with
    | error f => rfl
    | ok next => cases next <;> rfl
  · split
    · cases s.accessParts? with
      | none => rfl
      | some parts =>
        obtain ⟨base, key⟩ := parts
        dsimp only [bind, Except.bind]
        cases object? base with
        | error f => rfl
        | ok object =>
          cases object with
          | none => rfl
          | some object =>
            dsimp only [Followed.intoMember, Functor.map, Except.map]
            cases object.propertyValue? key with
            | error f => rfl
            | ok next => cases next <;> rfl
    · rfl

/-- A member access, with the base it reads from and the key. -/
structure ReadsFrom (s base : Site) (key : String) : Prop where
  isAccess : s.hasKind .memberExpression = true
  parts : s.accessParts? = some (base, key)

theorem ReadsFrom.follow_eq {key : String} (h : ReadsFrom s base key) :
    p.follow object? s = object? base >>= Followed.intoMember key := by
  have hname : s.hasKind .identifier = false := Site.hasKind_ne h.isAccess (by decide)
  rw [follow, hname, if_neg (by decide), if_pos h.isAccess, h.parts]

/-! ### Questions -/

/-- The object literal a base denotes, with a bound on the depth. -/
def objectWithin (p : Project) (depth : Nat) (base : Site) : Attempt (Option Site) :=
  onlyKind .object <$> p.denotedWithin depth base

/-- The object literal a base denotes at some depth. -/
def Finds (p : Project) (base object : Site) : Prop :=
  ∃ depth, p.objectWithin depth base = .ok (some object)

/-- A name leads to its initializer, a member to its value in the object it is read from. -/
inductive Leads (p : Project) : Site → Site → Prop where
  | name {s next : Site} : s.hasKind .identifier = true → p.initializer? s = .ok (some next) →
    Leads p s next.unwrap
  | member {s base object next : Site} {key : String} : ReadsFrom s base key →
    p.Finds base object → object.propertyValue? key = .ok (some next) → Leads p s next.unwrap

/-- A chain of a number of steps asks for the object that a base denotes. -/
inductive ChainAsks (p : Project) (base : Site) : Nat → Site → Prop where
  | here {s : Site} {key : String} {steps : Nat} : ReadsFrom s base key →
    ChainAsks p base (steps + 1) s
  | next {s t : Site} {steps : Nat} : p.Leads s t → ChainAsks p base steps t →
    ChainAsks p base (steps + 1) s

/-- Following a site asks for the object that a base denotes. -/
def Asks (p : Project) (s base : Site) : Prop := p.ChainAsks base longestChain s.unwrap

/-- Questions inside one another, as many as that. -/
def AsksDeep (p : Project) : Nat → Site → Prop
  | 0, _ => True
  | depth + 1, s => ∃ base, p.Asks s base ∧ AsksDeep p depth base

/-! ### Depth -/

theorem denotedWithin_succ :
    p.denotedWithin (depth + 1) s = p.chain (p.objectWithin depth) longestChain s.unwrap := rfl

theorem objectWithin_endless_iff : p.objectWithin depth base = .error .endlessReference ↔
    p.denotedWithin depth base = .error .endlessReference := by
  unfold objectWithin
  cases p.denotedWithin depth base with
  | ok found => exact ⟨nofun, nofun⟩
  | error f => exact ⟨fun h => by cases h; rfl, fun h => by cases h; rfl⟩

/-- Answers that stay what they are. -/
def Extends (object? object'? : Site → Attempt (Option Site)) : Prop :=
  ∀ base, object? base ≠ .error .endlessReference → object'? base = object? base

theorem follow_extends (h : Extends object? object'?)
    (hne : p.follow object? s ≠ .error .endlessReference) :
    p.follow object'? s = p.follow object? s := by
  unfold follow at hne ⊢
  split
  · rfl
  · next hname =>
    rw [if_neg hname] at hne
    split
    · next haccess =>
      rw [if_pos haccess] at hne
      cases hparts : s.accessParts? with
      | none => rfl
      | some parts =>
        rw [hparts] at hne
        have hbase : object? parts.1 ≠ .error .endlessReference := by
          intro hbase
          dsimp only at hne
          rw [hbase] at hne
          exact hne rfl
        dsimp only
        rw [h _ hbase]
    · rfl

theorem chain_extends (h : Extends object? object'?)
    (hne : p.chain object? steps s ≠ .error .endlessReference) :
    p.chain object'? steps s = p.chain object? steps s := by
  induction steps generalizing s with
  | zero => rfl
  | succ steps ih =>
    rw [chain_succ] at hne
    rw [chain_succ, chain_succ]
    have hfollow : p.follow object? s ≠ .error .endlessReference := by
      intro hfollow
      rw [hfollow] at hne
      exact hne rfl
    rw [follow_extends h hfollow]
    cases hstep : p.follow object? s with
    | error f => rfl
    | ok step =>
      rw [hstep] at hne
      cases step with
      | toward next => exact ih hne
      | ended found => rfl

/-- An answer does not change with more depth. -/
theorem denotedWithin_mono (hle : depth ≤ depth')
    (hne : p.denotedWithin depth s ≠ .error .endlessReference) :
    p.denotedWithin depth' s = p.denotedWithin depth s := by
  induction depth generalizing depth' s with
  | zero => exact absurd rfl hne
  | succ depth ih =>
    obtain ⟨more, rfl⟩ := Nat.exists_eq_add_of_le' hle
    have hextends : Extends (p.objectWithin depth) (p.objectWithin (more + depth)) := by
      intro base hbase
      have hdenoted := mt objectWithin_endless_iff.2 hbase
      rw [objectWithin, ih (Nat.le_add_left depth more) hdenoted, objectWithin]
    exact chain_extends hextends hne

/-- Two depths that both answer answer alike. -/
theorem denotedWithin_unique (h : p.denotedWithin depth s ≠ .error .endlessReference)
    (h' : p.denotedWithin depth' s ≠ .error .endlessReference) :
    p.denotedWithin depth s = p.denotedWithin depth' s := by
  rw [← denotedWithin_mono (Nat.le_max_left depth depth') h,
    denotedWithin_mono (Nat.le_max_right depth depth') h']

/-- What is found at some depth is found at any depth that does not run out. -/
theorem Finds.objectWithin (h : p.Finds base object) (depth : Nat) :
    p.objectWithin depth base = .ok (some object) ∨
      p.objectWithin depth base = .error .endlessReference := by
  obtain ⟨depth', h⟩ := h
  by_cases hne : p.denotedWithin depth base = .error .endlessReference
  · exact Or.inr (objectWithin_endless_iff.2 hne)
  · have hne' : p.denotedWithin depth' base ≠ .error .endlessReference := by
      intro hne'
      rw [objectWithin_endless_iff.2 hne'] at h
      cases h
    left
    rw [Project.objectWithin, denotedWithin_unique hne hne']
    exact h

theorem Finds.unique {object' : Site} (h : p.Finds base object) (h' : p.Finds base object') :
    object = object' := by
  obtain ⟨depth, hdepth⟩ := h'
  rcases h.objectWithin depth with hfound | hendless
  · exact Option.some.inj (Except.ok.inj (hfound.symm.trans hdepth))
  · cases hendless.symm.trans hdepth

/-! ### Running out of depth -/

/-- A project in which neither literals nor imports run out of depth. -/
def Bounded (p : Project) : Prop := p.Legible (fun _ => True) (· ≠ .endlessReference)

/-- A literal that cannot be read is no endless reference. -/
theorem legible_site (s : Site) : s.Legible (fun _ => True) (· ≠ .endlessReference) := by
  have hnode (n : Node) : n.Legible (fun _ => True) (· ≠ .endlessReference) := by
    refine ⟨trivial, fun _ => ⟨fun _ => trivial, fun hf => ?_⟩⟩
    rcases Text.decode_eq_error hf with rfl | rfl <;> decide
  exact ⟨fun m _ => hnode m, fun n _ m _ => hnode m⟩

theorem ConfiguredBy.bounded {preferences : Preferences} (h : p.ConfiguredBy preferences) :
    p.Bounded where
  aliases := h.ends_aliases (fun _ _ _ => nofun) (fun _ _ _ => nofun)
  closed := by simp [h.closed]
  files := fun f _ => (legible_site f.top).here

theorem map_ne_endless {α β : Type} {P : α → Prop} {x : Attempt α} {g : α → β}
    (h : Ends (· ≠ .endlessReference) P x) : g <$> x ≠ .error .endlessReference := by
  cases x with
  | ok a => nofun
  | error f =>
    intro hf
    cases hf
    exact h.fault rfl rfl

/-- A step runs out of depth exactly if the question it asks does. -/
theorem follow_endless_iff (hp : p.Bounded) : p.follow object? s = .error .endlessReference ↔
    ∃ base key, ReadsFrom s base key ∧ object? base = .error .endlessReference := by
  constructor
  · intro h
    unfold follow at h
    split at h
    · exact absurd h (map_ne_endless (hp.initializer? (legible_site s)))
    · split at h
      · next haccess =>
        cases hparts : s.accessParts? with
        | none =>
          rw [hparts] at h
          cases h
        | some parts =>
          obtain ⟨base, key⟩ := parts
          rw [hparts] at h
          refine ⟨base, key, ⟨haccess, hparts⟩, ?_⟩
          dsimp only at h
          cases hobject : object? base with
          | error f =>
            rw [hobject] at h
            cases h
            rfl
          | ok object =>
            rw [hobject] at h
            cases object with
            | none => cases h
            | some object =>
              exact absurd h (map_ne_endless ((legible_site object).propertyValue? key))
      · cases h
  · rintro ⟨base, key, hreads, hbase⟩
    rw [hreads.follow_eq, hbase]
    rfl

/-- A step that comes to an end with a site did not leave it. -/
theorem follow_ended (h : p.follow object? s = .ok (.ended (some t))) : t = s := by
  have honward {x : Attempt (Option Site)} (h : Followed.onward <$> x = .ok (.ended (some t))) :
      t = s := by
    cases x with
    | error f => cases h
    | ok next => cases next <;> cases h
  unfold follow at h
  split at h
  · exact honward h
  · split at h
    · split at h
      · cases h
      · obtain ⟨object, -, h⟩ := bind_eq_ok.1 h
        cases object with
        | none => cases h
        | some object => exact honward h
    · cases h
      rfl

theorem onward_eq_toward {x : Attempt (Option Site)}
    (h : Followed.onward <$> x = .ok (.toward t)) : ∃ next, x = .ok (some next) ∧ next.unwrap = t := by
  cases x with
  | error f => cases h
  | ok next =>
    cases next with
    | none => cases h
    | some next =>
      cases h
      exact ⟨next, rfl, rfl⟩

/-- A step that goes on does so by the initializer of a name, or by the value of a member. -/
theorem follow_toward (h : p.follow object? s = .ok (.toward t)) :
    (s.hasKind .identifier = true ∧ ∃ next, p.initializer? s = .ok (some next) ∧ next.unwrap = t) ∨
    ∃ base key object next, ReadsFrom s base key ∧ object? base = .ok (some object) ∧
      object.propertyValue? key = .ok (some next) ∧ next.unwrap = t := by
  unfold follow at h
  split at h
  · next hname => exact .inl ⟨hname, onward_eq_toward h⟩
  · split at h
    · next haccess =>
      cases hparts : s.accessParts? with
      | none =>
        rw [hparts] at h
        cases h
      | some parts =>
        obtain ⟨base, key⟩ := parts
        rw [hparts] at h
        obtain ⟨object, hobject, h⟩ := bind_eq_ok.1 h
        cases object with
        | none => cases h
        | some object =>
          obtain ⟨next, hnext, hunwrap⟩ := onward_eq_toward h
          exact .inr ⟨base, key, object, next, ⟨haccess, hparts⟩, hobject, hnext, hunwrap⟩
    · cases h

/-- A step taken is a name or member that leads on. -/
theorem leads_of_follow (h : p.follow (p.objectWithin depth) s = .ok (.toward t)) :
    p.Leads s t := by
  obtain ⟨hname, next, hnext, rfl⟩ | ⟨base, key, object, next, hreads, hobject, hnext, rfl⟩ :=
    follow_toward h
  · exact .name hname hnext
  · exact .member hreads ⟨depth, hobject⟩ hnext

/-- What leads on is followed, unless its question runs out of depth. -/
theorem Leads.follow (h : p.Leads s t) (depth : Nat) : p.follow (p.objectWithin depth) s = .ok (.toward t) ∨
    p.follow (p.objectWithin depth) s = .error .endlessReference := by
  cases h with
  | name hname hnext =>
    left
    rw [Project.follow, if_pos hname, hnext]
    rfl
  | member hreads hfinds hnext =>
    rw [hreads.follow_eq]
    rcases hfinds.objectWithin depth with hobject | hobject
    · left
      rw [hobject]
      dsimp only [bind, Except.bind, Followed.intoMember]
      rw [hnext]
      rfl
    · right
      rw [hobject]
      rfl

/-- A chain runs out of depth exactly if one of its questions does. -/
theorem chain_endless_iff (hp : p.Bounded) :
    p.chain (p.objectWithin depth) steps s = .error .endlessReference ↔
      ∃ base, p.ChainAsks base steps s ∧
        p.denotedWithin depth base = .error .endlessReference := by
  simp only [← objectWithin_endless_iff]
  constructor
  · intro h
    induction steps generalizing s with
    | zero => cases h
    | succ steps ih =>
      rw [chain_succ] at h
      cases hstep : p.follow (p.objectWithin depth) s with
      | error f =>
        rw [hstep] at h
        cases h
        obtain ⟨base, key, hreads, hbase⟩ := (follow_endless_iff hp).1 hstep
        exact ⟨base, .here hreads, hbase⟩
      | ok step =>
        rw [hstep] at h
        cases step with
        | ended found => cases h
        | toward next =>
          obtain ⟨base, hasks, hbase⟩ := ih h
          exact ⟨base, .next (leads_of_follow hstep) hasks, hbase⟩
  · rintro ⟨base, hasks, hbase⟩
    induction hasks with
    | here hreads =>
      rw [chain_succ, (follow_endless_iff hp).2 ⟨base, _, hreads, hbase⟩]
      rfl
    | next hleads _ ih =>
      rw [chain_succ]
      rcases hleads.follow depth with hstep | hstep
      · rw [hstep]
        exact ih
      · rw [hstep]
        rfl

/-- References run out of depth exactly where that many questions are inside one another. -/
theorem denotedWithin_endless_iff (hp : p.Bounded) :
    p.denotedWithin depth s = .error .endlessReference ↔ p.AsksDeep depth s := by
  induction depth generalizing s with
  | zero => exact ⟨fun _ => trivial, fun _ => rfl⟩
  | succ depth ih =>
    rw [denotedWithin_succ, chain_endless_iff hp]
    simp only [ih]
    rfl

/-! ### Questions without end -/

theorem AsksDeep.of_succ (h : p.AsksDeep (depth + 1) s) : p.AsksDeep depth s := by
  induction depth generalizing s with
  | zero => trivial
  | succ depth ih =>
    obtain ⟨base, hasks, hdeep⟩ := h
    exact ⟨base, hasks, ih hdeep⟩

theorem AsksDeep.of_le (h : p.AsksDeep depth' s) (hle : depth ≤ depth') : p.AsksDeep depth s := by
  induction hle with
  | refl => exact h
  | step _ ih => exact ih h.of_succ

theorem ReadsFrom.not_name {key : String} (h : ReadsFrom s base key) :
    s.hasKind .identifier = false :=
  Site.hasKind_ne h.isAccess (by decide)

theorem ReadsFrom.unique {base' : Site} {key key' : String} (h : ReadsFrom s base key)
    (h' : ReadsFrom s base' key') : base = base' ∧ key = key' :=
  Prod.mk.inj (Option.some.inj (h.parts.symm.trans h'.parts))

theorem Leads.unique {t' : Site} (h : p.Leads s t) (h' : p.Leads s t') : t = t' := by
  cases h with
  | name hname hnext =>
    cases h' with
    | name _ hnext' =>
      cases hnext.symm.trans hnext'
      rfl
    | member hreads => cases hreads.not_name.symm.trans hname
  | member hreads hfinds hnext =>
    cases h' with
    | name hname => cases hreads.not_name.symm.trans hname
    | member hreads' hfinds' hnext' =>
      obtain ⟨rfl, rfl⟩ := hreads.unique hreads'
      cases hfinds.unique hfinds'
      cases hnext.symm.trans hnext'
      rfl

/-- A chain asks for no more than finitely many bases: one for each of its steps. -/
theorem exists_bases (steps : Nat) (s : Site) :
    ∃ bases : List Site, ∀ base, p.ChainAsks base steps s → base ∈ bases := by
  induction steps generalizing s with
  | zero => exact ⟨[], nofun⟩
  | succ steps ih =>
    obtain ⟨later, hlater⟩ : ∃ bases : List Site,
        ∀ base t, p.Leads s t → p.ChainAsks base steps t → base ∈ bases := by
      by_cases hleads : ∃ t, p.Leads s t
      · obtain ⟨t, ht⟩ := hleads
        obtain ⟨bases, hbases⟩ := ih t
        exact ⟨bases, fun base t' ht' hasks => hbases base (ht.unique ht' ▸ hasks)⟩
      · exact ⟨[], fun base t ht => absurd ⟨t, ht⟩ hleads⟩
    refine ⟨(s.accessParts?.map Prod.fst).toList ++ later, fun base hasks => ?_⟩
    cases hasks with
    | here hreads =>
      refine List.mem_append_left later ?_
      rw [hreads.parts]
      exact List.mem_singleton_self base
    | next hleads hasks => exact List.mem_append_right _ (hlater base _ hleads hasks)

/-- Finitely many questions that all come to an end do so within one depth. -/
theorem exists_depth (bases : List Site)
    (h : ∀ base ∈ bases, p.Asks s base → ∃ depth, ¬p.AsksDeep depth base) :
    ∃ depth, ∀ base ∈ bases, p.Asks s base → ¬p.AsksDeep depth base := by
  induction bases with
  | nil => exact ⟨0, nofun⟩
  | cons first rest ih =>
    obtain ⟨hfirst, hrest⟩ := List.forall_mem_cons.1 h
    obtain ⟨depth, hdepth⟩ := ih hrest
    by_cases hasks : p.Asks s first
    · obtain ⟨depth', hdepth'⟩ := hfirst hasks
      refine ⟨max depth depth', List.forall_mem_cons.2 ⟨fun _ hdeep => ?_, fun base hbase ha hdeep => ?_⟩⟩
      · exact hdepth' (hdeep.of_le (Nat.le_max_right depth depth'))
      · exact hdepth base hbase ha (hdeep.of_le (Nat.le_max_left depth depth'))
    · exact ⟨depth, List.forall_mem_cons.2 ⟨fun ha => absurd ha hasks, hdepth⟩⟩

/-- Questions are not endlessly deep exactly where they do not lead on without end. -/
theorem exists_not_asksDeep_iff :
    (∃ depth, ¬p.AsksDeep depth s) ↔ Acc (fun base s => p.Asks s base) s := by
  constructor
  · rintro ⟨depth, hdepth⟩
    induction depth generalizing s with
    | zero => exact absurd trivial hdepth
    | succ depth ih =>
      refine Acc.intro s fun base hasks => ih fun hdeep => ?_
      exact hdepth ⟨base, hasks, hdeep⟩
  · intro hacc
    induction hacc with
    | intro s _ ih =>
      obtain ⟨bases, hbases⟩ := exists_bases (p := p) longestChain s.unwrap
      obtain ⟨depth, hdepth⟩ := exists_depth bases fun base _ => ih base
      refine ⟨depth + 1, ?_⟩
      rintro ⟨base, hasks, hdeep⟩
      exact hdepth base (hbases base hasks) hasks hdeep

/-- Every depth is too small exactly where questions lead on without end. -/
theorem forall_endless_iff (hp : p.Bounded) :
    (∀ depth, p.denotedWithin depth s = .error .endlessReference) ↔
      ∃ path : ℕ → Site, path 0 = s ∧ ∀ n, p.Asks (path n) (path (n + 1)) := by
  rw [← not_acc_iff_exists_descending_chain (r := fun base s => p.Asks s base),
    ← exists_not_asksDeep_iff]
  simp only [denotedWithin_endless_iff hp, not_exists, not_not]

/-! ### Reading from objects -/

theorem denoted_unwrap : p.denoted? s.unwrap = p.denoted? s := by
  unfold denoted? deepestChain
  rw [denotedWithin_succ, denotedWithin_succ, Site.unwrap_unwrap]

theorem object_unwrap : p.object? s.unwrap = p.object? s := by
  rw [object?, denoted_unwrap, object?]

/-- A name that denotes something has an initializer. -/
theorem exists_initializer (hname : s.hasKind .identifier = true)
    (h : p.denoted? s = .ok (some t)) : ∃ next, p.initializer? s = .ok (some next) := by
  unfold denoted? deepestChain at h
  rw [denotedWithin_succ, Site.unwrap_eq_self hname rfl, longestChain, chain_succ] at h
  obtain ⟨step, hstep, h⟩ := bind_eq_ok.1 h
  cases step with
  | toward next =>
    rw [follow, if_pos hname] at hstep
    obtain ⟨next, hnext, -⟩ := onward_eq_toward hstep
    exact ⟨next, hnext⟩
  | ended found =>
    cases h
    rw [follow, if_pos hname] at hstep
    cases hnext : p.initializer? s with
    | error f =>
      rw [hnext] at hstep
      cases hstep
    | ok next =>
      rw [hnext] at hstep
      cases next <;> cases hstep

/-- A name with an initializer is none of an enumeration. -/
theorem declaredEnumMember_eq_none {recur : Evaluator} {b : Bindings} {key : String} {next : Site}
    (h : base.hasKind .identifier = true → p.initializer? base = .ok (some next)) :
    p.declaredEnumMember? recur b base key = .ok none := by
  unfold declaredEnumMember?
  split
  · next hfree =>
    obtain ⟨declared, hdeclared, hvalue⟩ :=
      bind_eq_ok.1 (h (Bool.and_eq_true_iff.1 hfree).1)
    rw [hdeclared]
    dsimp only [bind, Except.bind]
    split
    · cases pure_eq_ok.1 hvalue
    · rfl
  · rfl

/-- What denotes an object is not the name of an enumeration. -/
theorem declaredEnumMember_of_object {recur : Evaluator} {b : Bindings} {key : String}
    (h : p.object? base = .ok (some object)) :
    p.declaredEnumMember? recur b base key = .ok none := by
  by_cases hname : base.hasKind .identifier = true
  · cases hdenoted : p.denoted? base with
    | error f =>
      rw [object?, hdenoted] at h
      cases h
    | ok found =>
      cases found with
      | none =>
        rw [object?, hdenoted] at h
        cases h
      | some t =>
        obtain ⟨next, hnext⟩ := exists_initializer hname hdenoted
        exact declaredEnumMember_eq_none fun _ => hnext
  · unfold declaredEnumMember?
    rw [if_neg (by simp [hname])]

/-- What is found of one kind is found, and is of that kind. -/
theorem of_onlyKind {k : Kind} {x : Attempt (Option Site)} (h : onlyKind k <$> x = .ok (some t)) :
    x = .ok (some t) ∧ t.hasKind k = true := by
  cases x with
  | error f => cases h
  | ok found =>
    obtain ⟨rfl, hkind⟩ := Option.filter_eq_some_iff.1 (Except.ok.inj h)
    exact ⟨rfl, hkind⟩

theorem isObject_of_object (h : p.object? base = .ok (some object)) :
    p.denoted? base = .ok (some object) ∧ object.hasKind .object = true := of_onlyKind h

/-- A base that is no bound name is read from what it denotes. -/
theorem container_of_denoted {b : Bindings} {found : Option Site}
    (hfree : base.hasKind .identifier = true → b.lookup base.text = none)
    (h : p.denoted? base = .ok found) :
    p.container? b base = .ok (found.filter fun s => s.hasKind .object || s.hasKind .array) := by
  unfold container?
  by_cases hname : base.hasKind .identifier = true
  · rw [if_pos hname, hfree hname]
    dsimp only [bind, Except.bind]
    rw [h]
    rfl
  · rw [if_neg hname]
    dsimp only [bind, Except.bind]
    rw [h]
    rfl

/-- The value behind a key of an object literal is that of the entry there. -/
theorem accessValue_of_object {recur : Evaluator} {b : Bindings} {key : String} {entry : Site}
    (hfree : base.unwrap.hasKind .identifier = true → b.lookup base.unwrap.text = none)
    (h : p.object? base = .ok (some object)) (hentry : object.memberValue? key = .ok (some entry)) :
    p.accessValue recur b base key = recur entry [] := by
  have hunwrap : p.object? base.unwrap = .ok (some object) := by rw [object_unwrap, h]
  have hread : entryAt? object key = .ok (some entry) := by
    rw [entryAt?, if_pos (isObject_of_object h).2, hentry]
  obtain ⟨hdenoted, hobject⟩ := isObject_of_object hunwrap
  unfold accessValue
  dsimp only
  rw [declaredEnumMember_of_object hunwrap, container_of_denoted hfree hdenoted]
  dsimp only [bind, Except.bind]
  simp only [Option.filter_some, hobject, Bool.true_or, if_true, hread]

/-- An expression that reads a key from a base: a member access, or an element whose index evaluates to
the key. -/
inductive ReadsKey (p : Project) (b : Bindings) : Site → Site → String → Prop where
  | member {s base : Site} {key : String} : ReadsFrom s.unwrap base key → ReadsKey p b s base key
  | text {s base index : Site} {key : String} : s.unwrap.hasKind .subscriptExpression = true →
    s.unwrap.part? .object = some base → s.unwrap.part? .index = some index →
    p.evaluateWithin (evaluationDepth - 1) index b = .ok (.ok (.text key)) → ReadsKey p b s base key
  | number {s base index : Site} {key : String} {n : Value} :
    s.unwrap.hasKind .subscriptExpression = true → s.unwrap.part? .object = some base →
    s.unwrap.part? .index = some index →
    p.evaluateWithin (evaluationDepth - 1) index b = .ok (.ok n) → n.isNumber = true →
    n.keyText = .ok key → ReadsKey p b s base key

theorem ReadsKey.evaluate_eq {b : Bindings} {key : String} (h : p.ReadsKey b s base key) :
    p.evaluate s b = p.accessValue (p.evaluateWithin (evaluationDepth - 1)) b base key := by
  rw [evaluate, evaluationDepth, evaluateWithin, valueOf]
  cases h with
  | member hreads =>
    rw [Site.kind_eq_of_hasKind hreads.isAccess]
    dsimp only
    rw [memberValue, hreads.parts]
  | text hkind hobject hindex hkey =>
    have hkey : p.evaluateWithin 32 _ b = .ok (.ok (.text key)) := hkey
    rw [Site.kind_eq_of_hasKind hkind]
    dsimp only
    rw [elementValue, partValue, hindex]
    dsimp only
    rw [hkey, hobject]
    rfl
  | number hkind hobject hindex hn hnumber hkey =>
    rename_i n
    have hn : p.evaluateWithin 32 _ b = .ok (.ok n) := hn
    rw [Site.kind_eq_of_hasKind hkind]
    dsimp only
    rw [elementValue, partValue, hindex]
    dsimp only
    rw [hn, hobject]
    cases n with
    | integer | decimal =>
      dsimp only [bind, Except.bind]
      rw [hkey]
      rfl
    | text | null | truth | list | record => cases hnumber

/-- Nothing is read from a base that runs out of depth. -/
theorem accessValue_endless {recur : Evaluator} {b : Bindings} {key : String} {next : Site}
    (hfree : base.unwrap.hasKind .identifier = true → b.lookup base.unwrap.text = none)
    (hnext : base.unwrap.hasKind .identifier = true → p.initializer? base.unwrap = .ok (some next))
    (h : p.denoted? base = .error .endlessReference) :
    p.accessValue recur b base key = .error .endlessReference := by
  rw [← denoted_unwrap] at h
  unfold accessValue
  dsimp only
  rw [declaredEnumMember_eq_none hnext]
  have hcontainer : p.container? b base.unwrap = .error .endlessReference := by
    unfold container?
    by_cases hname : base.unwrap.hasKind .identifier = true
    · rw [if_pos hname, hfree hname]
      dsimp only [bind, Except.bind]
      rw [h]
    · rw [if_neg hname]
      dsimp only [bind, Except.bind]
      rw [h]
  dsimp only [bind, Except.bind]
  rw [hcontainer]

end Project

/-! ### Members of literals -/

theorem exists_pair_of_propertyValue {literal entry : Site} {key : String}
    (h : literal.propertyValue? key = .ok (some entry)) :
    literal.hasKind .object = true ∧ ∃ member ∈ literal.named, member.hasKind .pair = true ∧
      member.memberKey? = .ok (some key) ∧ member.pairValue? = some entry := by
  unfold Site.propertyValue? at h
  split at h
  · next hobject =>
    obtain ⟨member, hmember, hvalue⟩ := exists_of_firstSome h
    obtain ⟨hmember, hpair⟩ := List.mem_filter.1 hmember
    obtain ⟨found, hfound, hvalue⟩ := bind_eq_ok.1 hvalue
    split at hvalue
    · next hkey =>
      cases eq_of_beq hkey
      exact ⟨hobject, member, hmember, hpair, hfound, pure_eq_ok.1 hvalue⟩
    · cases pure_eq_ok.1 hvalue
  · cases h

end SettingsHarvest
