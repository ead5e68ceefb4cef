import SettingsHarvest.Proofs.Surroundings

/-! The names that an expression mentions.

`Site.Mentions` is about the names written in an expression itself: identifiers, and members written as
a name alone. What they stand for is elsewhere and not part of it. A part of an expression mentions no
other names than the whole, and neither does the expression behind its wrappers. -/
namespace SettingsHarvest
open Syntax

namespace Syntax.Site

variable {s t : Site} {file : String} {above : List Node}

/-! ### What is below a site -/

theorem mem_walk_self (s : Site) : s ∈ s.walk := by
  rw [walk_eq_cons]
  exact List.mem_cons_self

theorem mem_walk_inside {part : Node} (hpart : part ∈ s.node.parts) (h : t ∈ (s.inside part).walk) :
    t ∈ s.walk := by
  have hbelow : t ∈ s.parts.flatMap walk :=
    List.mem_flatMap.2 ⟨s.inside part, List.mem_map_of_mem hpart, h⟩
  rw [walk_eq_cons]
  exact List.mem_cons_of_mem s hbelow

theorem mem_walk_part? {r : Role} {part : Site} (hpart : s.part? r = some part) (h : t ∈ part.walk) :
    t ∈ s.walk := by
  obtain ⟨n, hn, rfl⟩ := Option.map_eq_some_iff.1 hpart
  exact mem_walk_inside (List.mem_of_find?_eq_some hn) h

mutual

theorem mem_walkFrom_core {above : List Node} :
    ∀ {n : Node}, t ∈ walkFrom file (core above n).1 (core above n).2 → t ∈ walkFrom file above n
  | .token .., h => h
  | .leaf .., h => h
  | .tree k r parts, h => by
    unfold core at h
    split at h
    · dsimp only at h
      split at h
      · cases hlast : coreOfLast (.tree k r parts :: above) parts with
        | none =>
          rw [hlast] at h
          exact h
        | some found =>
          rw [hlast] at h
          exact List.mem_cons_of_mem _ (mem_walkFrom_coreOfLast hlast h)
      · cases hfirst : coreOfFirst (.tree k r parts :: above) parts with
        | none =>
          rw [hfirst] at h
          exact h
        | some found =>
          rw [hfirst] at h
          exact List.mem_cons_of_mem _ (mem_walkFrom_coreOfFirst hfirst h)
    · exact h

theorem mem_walkFrom_coreOfFirst {above : List Node} :
    ∀ {parts : List Node} {found : List Node × Node}, coreOfFirst above parts = some found →
      t ∈ walkFrom file found.1 found.2 → t ∈ walkAllFrom file above parts
  | [], _, hfound, _ => nomatch hfound
  | p :: rest, _, hfound, h => by
    unfold coreOfFirst at hfound
    split at hfound
    · cases hfound
      exact List.mem_append_left _ (mem_walkFrom_core h)
    · exact List.mem_append_right _ (mem_walkFrom_coreOfFirst hfound h)

theorem mem_walkFrom_coreOfLast {above : List Node} :
    ∀ {parts : List Node} {found : List Node × Node}, coreOfLast above parts = some found →
      t ∈ walkFrom file found.1 found.2 → t ∈ walkAllFrom file above parts
  | [], _, hfound, _ => nomatch hfound
  | p :: rest, _, hfound, h => by
    unfold coreOfLast at hfound
    split at hfound
    · next hlast =>
      cases hfound
      exact List.mem_append_right _ (mem_walkFrom_coreOfLast hlast h)
    · split at hfound
      · cases hfound
        exact List.mem_append_left _ (mem_walkFrom_core h)
      · cases hfound

end

theorem mem_walk_unwrap (h : t ∈ s.unwrap.walk) : t ∈ s.walk := mem_walkFrom_core h

/-! ### Names -/

/-- A name in an expression: an identifier, or a member of an object literal written as a name alone. -/
def isNameUse (s : Site) : Bool := s.hasKind .identifier || s.hasKind .shorthandPropertyIdentifier

theorem isNameUse_of_identifier (h : s.hasKind .identifier = true) : s.isNameUse = true := by
  rw [isNameUse, h, Bool.true_or]

theorem isNameUse_of_shorthand (h : s.hasKind .shorthandPropertyIdentifier = true) : s.isNameUse = true := by
  rw [isNameUse, h, Bool.or_true]

theorem hasKind_of_isNameUse (h : s.isNameUse = true) {k : Kind} (hk : k ≠ .identifier)
    (hk' : k ≠ .shorthandPropertyIdentifier) : s.hasKind k = false := by
  rcases Bool.or_eq_true_iff.1 h with h | h
  · exact hasKind_ne h hk.symm
  · exact hasKind_ne h hk'.symm

theorem unwrap_of_isNameUse (h : s.isNameUse = true) : s.unwrap = s := by
  rcases Bool.or_eq_true_iff.1 h with h | h <;> exact unwrap_eq_self h rfl

/-- A name in or at a site. -/
structure Mentions (s name : Site) : Prop where
  below : name ∈ s.walk
  isName : name.isNameUse = true

namespace Mentions

variable {name : Site}

theorem self (h : s.isNameUse = true) : s.Mentions s := ⟨s.mem_walk_self, h⟩

theorem of_part? {r : Role} {part : Site} (hpart : s.part? r = some part) (h : part.Mentions name) :
    s.Mentions name := ⟨mem_walk_part? hpart h.below, h.isName⟩

theorem of_unwrap (h : s.unwrap.Mentions name) : s.Mentions name := ⟨mem_walk_unwrap h.below, h.isName⟩

theorem of_accessParts {base : Site} {key : String} (hparts : s.accessParts? = some (base, key))
    (h : base.Mentions name) : s.Mentions name := by
  unfold accessParts? at hparts
  split at hparts
  · next hobject _ =>
    cases hparts
    exact of_part? hobject h
  · cases hparts

end Mentions
end Syntax.Site
end SettingsHarvest
