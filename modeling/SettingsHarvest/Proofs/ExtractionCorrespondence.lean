import SettingsHarvest.Proofs.DefaultCorrespondence
import SettingsHarvest.Proofs.Surroundings

/-! Settings of corresponding plugins.

Members of corresponding objects are settings or groups alike, so the same entries are found in both
(`SettingCorrespondence.extract`). How far groups are followed is bounded by the number of nodes, which
differs where one of the programs has more of them; but objects in an object have fewer nodes, and the
bound is never reached. -/
namespace SettingsHarvest
open Syntax Project

/-! ### Sizes -/

namespace Syntax.Node

/-- How many nodes there are in a node, itself among them. -/
def size (n : Node) : Nat := n.walk.length

theorem size_le_of_mem {n : Node} {parts : List Node} (h : n ∈ parts) :
    n.size ≤ (walkAll parts).length := by
  induction parts with
  | nil => cases h
  | cons m rest ih =>
    rw [walkAll, List.length_append]
    rcases List.mem_cons.1 h with rfl | h
    · exact Nat.le_add_right _ _
    · exact (ih h).trans (Nat.le_add_left _ _)

theorem size_lt_of_part {n part : Node} (h : part ∈ n.parts) : part.size < n.size := by
  cases n with
  | token | leaf => cases h
  | tree k r parts =>
    have hle : part.size ≤ (walkAll parts).length := size_le_of_mem h
    rw [show (tree k r parts).size = (walkAll parts).length + 1 from rfl]
    omega

end Syntax.Node

namespace Syntax.Site

mutual

/-- What is behind wrappers is no larger. -/
theorem size_core (above : List Node) : ∀ n : Node, (core above n).2.size ≤ n.size
  | .token .. => Nat.le_refl _
  | .leaf .. => Nat.le_refl _
  | .tree k r parts => by
    rw [core]
    split
    · have hwhole : (Node.tree k r parts).size = (Node.walkAll parts).length + 1 := rfl
      dsimp only
      split
      · cases hlast : coreOfLast (.tree k r parts :: above) parts with
        | none => exact Nat.le_refl _
        | some found =>
          have hfound := size_coreOfLast hlast
          rw [Option.getD_some]
          omega
      · cases hfirst : coreOfFirst (.tree k r parts :: above) parts with
        | none => exact Nat.le_refl _
        | some found =>
          have hfound := size_coreOfFirst hfirst
          rw [Option.getD_some]
          omega
    · exact Nat.le_refl _

theorem size_coreOfFirst {above : List Node} : ∀ {parts : List Node} {found : List Node × Node},
    coreOfFirst above parts = some found → found.2.size ≤ (Node.walkAll parts).length
  | [], _, h => nomatch h
  | p :: rest, _, h => by
    rw [Node.walkAll, List.length_append]
    rw [coreOfFirst] at h
    split at h
    · cases h
      exact (size_core above p).trans (Nat.le_add_right _ _)
    · exact (size_coreOfFirst h).trans (Nat.le_add_left _ _)

theorem size_coreOfLast {above : List Node} : ∀ {parts : List Node} {found : List Node × Node},
    coreOfLast above parts = some found → found.2.size ≤ (Node.walkAll parts).length
  | [], _, h => nomatch h
  | p :: rest, _, h => by
    rw [Node.walkAll, List.length_append]
    rw [coreOfLast] at h
    split at h
    · next hlast =>
      cases h
      exact (size_coreOfLast hlast).trans (Nat.le_add_left _ _)
    · split at h
      · cases h
        exact (size_core above p).trans (Nat.le_add_right _ _)
      · cases h

end

/-- The value of a pair has fewer nodes than the object with the pair. -/
theorem size_pairValue {s pair v : Site} (hpair : pair ∈ s.named) (hv : pair.pairValue? = some v) :
    v.unwrap.node.size < s.node.size := by
  obtain ⟨n, hn, rfl⟩ := List.mem_map.1 hpair
  obtain ⟨part, hpart, rfl⟩ := Option.map_eq_some_iff.1 hv
  have hn : n.size < s.node.size := Node.size_lt_of_part (List.mem_filter.1 hn).1
  have hpart : part.size < n.size := Node.size_lt_of_part (List.mem_of_find?_eq_some hpart)
  have hcore : (Site.core ((s.inside n).inside part).above part).2.size ≤ part.size := size_core _ _
  exact (hcore.trans_lt hpart).trans hn

end Syntax.Site

/-! ### Entries -/

theorem forall₂_mem {α α' : Type} {P : α → α' → Prop} {items : List α} {items' : List α'}
    (h : List.Forall₂ P items items') :
    List.Forall₂ (fun a a' => (a ∈ items ∧ a' ∈ items') ∧ P a a') items items' := by
  induction h with
  | nil => exact .nil
  | cons ha _ ih =>
    refine .cons ⟨⟨List.mem_cons_self, List.mem_cons_self⟩, ha⟩ (ih.imp fun a a' hmem => ?_)
    exact ⟨⟨List.mem_cons_of_mem _ hmem.1.1, List.mem_cons_of_mem _ hmem.1.2⟩, hmem.2⟩

namespace SettingCorrespondence

variable {p p' : Project} {Same Init : Site → Site → Prop} (c : SettingCorrespondence p p' Same Init)
  {s s' : Site}

include c

theorem hasMember (h : Same s s') (key : String) : Parallel Eq (s.hasMember key) (s'.hasMember key) := by
  unfold Site.hasMember
  rw [← c.hasKind h]
  split
  · next hs =>
    have hfound : Parallel (Option.Rel Eq)
        (firstSome (fun m => do
          if m.isShorthand key then return some ()
          else if m.hasKind .pair || m.hasKind .methodDefinition then
            if (← m.memberKey?) == some key then return some () else return none
          else return none) s.named)
        (firstSome (fun m => do
          if m.isShorthand key then return some ()
          else if m.hasKind .pair || m.hasKind .methodDefinition then
            if (← m.memberKey?) == some key then return some () else return none
          else return none) s'.named) :=
      Parallel.firstSome (c.members h hs) fun m m' hm => by
        rw [← c.isShorthand hm, ← c.hasKind hm, ← c.hasKind hm, ← c.memberKey hm]
        exact (Parallel.refl _).mono fun _ _ => option_rel_of_eq
    exact hfound.bind fun o o' ho => .ok (option_rel_isSome ho)
  · exact .ok rfl

theorem isGroup (h : Same s s') (hs : s.hasKind .object = true) :
    Parallel Eq s.isGroup s'.isGroup := by
  unfold Site.isGroup
  refine (c.hasMember h "type").bind fun typed _ heq => heq ▸ ?_
  split
  · exact .ok rfl
  refine (c.hasMember h "description").bind fun described _ heq => heq ▸ ?_
  split
  · exact .ok rfl
  refine Parallel.bind (P := Option.Rel Eq) ?_ fun o o' ho => .ok (option_rel_isSome ho)
  refine Parallel.firstSome (c.pairs h hs) fun pair pair' hpair => ?_
  rw [← c.memberKey hpair.2]
  refine .same_bind _ fun key _ => ?_
  rcases option_rel_cases (c.partOf hpair.2 .value) with ⟨hv, hv'⟩ | ⟨v, v', hv, hv', hvalue⟩
  · rw [Site.pairValue?, Site.pairValue?, hv, hv']
    cases key <;> exact .ok .none
  · have hkind : v.unwrap.hasKind .object = v'.unwrap.hasKind .object := c.hasKind hvalue .object
    rw [Site.pairValue?, Site.pairValue?, hv, hv']
    cases key with
    | none => exact .ok .none
    | some key =>
      dsimp only
      rw [hkind]
      exact .ok (option_rel_of_eq rfl)

theorem leavesOut (retainHidden : Bool) (h : Same s s') :
    Parallel Eq (leavesOut retainHidden s) (leavesOut retainHidden s') := by
  unfold Project.leavesOut
  split
  · exact .ok rfl
  · exact c.flagMember (c.settingsAlike h) "hidden" (by decide)

/-- The same entries come from corresponding pairs, if corresponding groups among their values have the
same entries and corresponding objects have defaults that are alike. -/
theorem entriesOf {retainHidden : Bool} {group group' : Site → Attempt Entries}
    {pairs pairs' : List Site} {P : Site → Site → Prop} (hpairs : List.Forall₂ P pairs pairs')
    (hsame : ∀ pair pair', P pair pair' → Same pair pair')
    (hgroup : ∀ pair pair' v v', P pair pair' → pair.pairValue? = some v → pair'.pairValue? = some v' →
      Unwrapped Same v v' → v.unwrap.hasKind .object = true →
      Parallel Eq (group v.unwrap) (group' v'.unwrap))
    (hdefault : ∀ s s', Same s s' → s.hasKind .object = true →
      Parallel (Option.Rel (DefaultAlike Same)) (s.memberValue? "default") (s'.memberValue? "default")) :
    Parallel Eq (p.entriesOf retainHidden group pairs) (p'.entriesOf retainHidden group' pairs') := by
  refine Parallel.foldlM hpairs rfl fun entries _ pair pair' heq hP => heq ▸ ?_
  rw [← c.memberKey (hsame _ _ hP)]
  refine .same_bind _ fun key _ => ?_
  rcases option_rel_cases (c.partOf (hsame _ _ hP) .value) with ⟨hv, hv'⟩ | ⟨v, v', hv, hv', hvalue⟩
  · rw [Site.pairValue?, Site.pairValue?, hv, hv']
    cases key <;> exact .ok rfl
  · have hkind : v.unwrap.hasKind .object = v'.unwrap.hasKind .object := c.hasKind hvalue .object
    have hentries := hgroup pair pair' v v' hP hv hv' hvalue
    rw [Site.pairValue?, Site.pairValue?, hv, hv']
    cases key with
    | none => exact .ok rfl
    | some key =>
      dsimp only [Option.map_some]
      rw [← hkind]
      cases hobject : v.unwrap.hasKind .object with
      | false => exact .ok rfl
      | true =>
        refine (c.leavesOut retainHidden hvalue).bind fun leaves _ heq => heq ▸ ?_
        split
        · exact .ok rfl
        refine (c.isGroup hvalue hobject).bind fun grouped _ heq => heq ▸ ?_
        split
        · exact (hentries hobject).bind fun inner _ heq => heq ▸ .ok rfl
        refine (c.extractSetting key hvalue hobject (hdefault _ _ hvalue hobject)).bind fun o o' ho => ?_
        cases ho with
        | value heq => exact heq ▸ .ok rfl
        | failure => exact .ok rfl

/-- Groups are followed to the end on both sides. -/
theorem extractWithin {retainHidden : Bool}
    (hdefault : ∀ s s', Same s s' → s.hasKind .object = true →
      Parallel (Option.Rel (DefaultAlike Same)) (s.memberValue? "default") (s'.memberValue? "default"))
    {depth depth' : Nat} (h : Same s s') (hs : s.hasKind .object = true) (hdepth : s.node.size < depth)
    (hdepth' : s'.node.size < depth') :
    Parallel Eq (p.extractWithin retainHidden depth s) (p'.extractWithin retainHidden depth' s') := by
  induction depth generalizing depth' s s' with
  | zero => omega
  | succ depth ih =>
    cases depth' with
    | zero => omega
    | succ depth' =>
      have hpairs := forall₂_mem (c.pairs h hs)
      refine c.entriesOf hpairs (fun _ _ hP => hP.2.2)
        (fun pair pair' v v' hP hv hv' hvalue hobject => ?_) hdefault
      have hsize := Site.size_pairValue (List.mem_filter.1 hP.1.1).1 hv
      have hsize' := Site.size_pairValue (List.mem_filter.1 hP.1.2).1 hv'
      exact ih hvalue hobject (by omega) (by omega)

/-- **Extraction.** Corresponding objects declare the same settings, if the defaults of corresponding
settings are alike. -/
theorem extract (hdefault : ∀ s s', Same s s' → s.hasKind .object = true →
      Parallel (Option.Rel (DefaultAlike Same)) (s.memberValue? "default") (s'.memberValue? "default"))
    (h : Same s s') (hs : s.hasKind .object = true) (retainHidden : Bool) :
    Parallel Eq (p.extract s retainHidden) (p'.extract s' retainHidden) :=
  c.extractWithin hdefault h hs (Nat.lt_succ_self _) (Nat.lt_succ_self _)

end SettingCorrespondence
end SettingsHarvest
