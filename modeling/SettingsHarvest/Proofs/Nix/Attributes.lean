import Mathlib.Data.List.Forall2
import SettingsHarvest.Nix.Module
import SettingsHarvest.Proofs.Assignment
import SettingsHarvest.Proofs.Attempt

/-! Attributes and the names that claim them.

Settings, groups and plugins are offered to a set one after another, and each gets the attribute its
name stands for unless somebody before it has that attribute. `claimants` are those that get theirs.
What is added to a set is then the attributes of the claimants, in order (`Granted`). -/
namespace SettingsHarvest.Nix

/-! ### Claimants -/

section Claimants

variable {α : Type} (nameOf : α → String)

/-- The attribute that something asks for. -/
def wanted (x : α) : String := identifierText (nameOf x)

/-- Those that get the attribute they ask for, when some are taken already. -/
def claimants (taken : List String) : List α → List α
  | [] => []
  | x :: rest =>
    if wanted nameOf x ∈ taken then claimants taken rest
    else x :: claimants (taken ++ [wanted nameOf x]) rest

variable {nameOf}

theorem mem_of_mem_claimants {taken : List String} {items : List α} {x : α}
    (h : x ∈ claimants nameOf taken items) : x ∈ items := by
  induction items generalizing taken with
  | nil => exact h
  | cons y rest ih =>
    rw [claimants] at h
    split at h
    · exact List.mem_cons_of_mem _ (ih h)
    · rcases List.mem_cons.1 h with rfl | h
      · exact List.mem_cons_self
      · exact List.mem_cons_of_mem _ (ih h)

/-- Whatever is asked for and not taken already goes to somebody. -/
theorem mem_map_wanted_claimants {taken : List String} {items : List α} {key : String} :
    key ∈ (claimants nameOf taken items).map (wanted nameOf) ↔
      key ∉ taken ∧ ∃ x ∈ items, wanted nameOf x = key := by
  induction items generalizing taken with
  | nil => simp [claimants]
  | cons y rest ih =>
    rw [claimants]
    split
    · next hy =>
      rw [ih]
      refine and_congr_right fun hkey => ⟨fun ⟨x, hx, hw⟩ => ⟨x, List.mem_cons_of_mem _ hx, hw⟩, ?_⟩
      rintro ⟨x, hx, rfl⟩
      rcases List.mem_cons.1 hx with rfl | hx
      · exact absurd hy hkey
      · exact ⟨x, hx, rfl⟩
    · next hy =>
      rw [List.map_cons, List.mem_cons, ih, List.mem_append, List.mem_singleton, not_or]
      constructor
      · rintro (rfl | ⟨⟨hkey, -⟩, x, hx, rfl⟩)
        · exact ⟨hy, y, List.mem_cons_self, rfl⟩
        · exact ⟨hkey, x, List.mem_cons_of_mem _ hx, rfl⟩
      · rintro ⟨hkey, x, hx, rfl⟩
        rcases List.mem_cons.1 hx with rfl | hx
        · exact Or.inl rfl
        · by_cases heq : wanted nameOf x = wanted nameOf y
          · exact Or.inl heq
          · exact Or.inr ⟨⟨hkey, heq⟩, x, hx, rfl⟩

/-- No attribute goes to two of them. -/
theorem nodup_map_wanted_claimants (taken : List String) (items : List α) :
    ((claimants nameOf taken items).map (wanted nameOf)).Nodup := by
  induction items generalizing taken with
  | nil => exact List.nodup_nil
  | cons y rest ih =>
    rw [claimants]
    split
    · exact ih taken
    · rw [List.map_cons, List.nodup_cons, mem_map_wanted_claimants]
      exact ⟨fun h => h.1 (by simp), ih _⟩

/-! ### Grants -/

/-- Attributes that the claimants among some items get. -/
def Granted (nameOf : α → String) (term : α → Except Fault Term) (taken : List String) (items : List α)
    (added : List (String × Term)) : Prop :=
  List.Forall₂ (fun x got => got.1 = wanted nameOf x ∧ term x = .ok got.2)
    (claimants nameOf taken items) added

variable {term : α → Except Fault Term} {taken : List String} {items : List α}
  {added : List (String × Term)}

theorem Granted.keysOf (h : Granted nameOf term taken items added) :
    keysOf added = (claimants nameOf taken items).map (wanted nameOf) := by
  rw [Granted] at h
  generalize claimants nameOf taken items = first at h ⊢
  induction h with
  | nil => rfl
  | cons hx _ ih => rw [keysOf_cons, List.map_cons, hx.1, ih]

theorem Granted.exists_claimant (h : Granted nameOf term taken items added) {v : String × Term}
    (hv : v ∈ added) : ∃ x ∈ claimants nameOf taken items, term x = .ok v.2 := by
  rw [Granted] at h
  generalize claimants nameOf taken items = first at h ⊢
  induction h with
  | nil => simp at hv
  | @cons x got _ _ hx _ ih =>
    rcases List.mem_cons.1 hv with rfl | hv
    · exact ⟨x, List.mem_cons_self, hx.2⟩
    · obtain ⟨y, hy, hterm⟩ := ih hv
      exact ⟨y, List.mem_cons_of_mem _ hy, hterm⟩

theorem Granted.exists_attribute (h : Granted nameOf term taken items added) {x : α}
    (hx : x ∈ claimants nameOf taken items) : ∃ t, (wanted nameOf x, t) ∈ added ∧ term x = .ok t := by
  rw [Granted] at h
  generalize claimants nameOf taken items = first at h hx
  induction h with
  | nil => simp at hx
  | @cons y got _ _ hy _ ih =>
    rcases List.mem_cons.1 hx with rfl | hx
    · exact ⟨got.2, by rw [← hy.1]; exact List.mem_cons_self, hy.2⟩
    · obtain ⟨t, ht, hterm⟩ := ih hx
      exact ⟨t, List.mem_cons_of_mem _ ht, hterm⟩

end Claimants

/-! ### Offers -/

namespace Attributes

/-- Every attribute has an owner. -/
def Owned (a : Attributes) : Prop := keysOf a.owners = keysOf a.values

theorem owned_empty : Owned empty := rfl

theorem offer_of_taken {a : Attributes} (ha : a.Owned) {name : String} (t : Term)
    (h : identifierText name ∈ keysOf a.values) :
    (a.offer name t).Owned ∧ (a.offer name t).values = a.values := by
  have hsome : (a.owners.lookup (identifierText name)).isSome = true := by
    rw [← ha] at h
    obtain ⟨owner, howner⟩ := mem_keysOf.1 h
    exact List.lookup_isSome_iff.2 ⟨_, howner, by simp⟩
  obtain ⟨owner, howner⟩ := Option.isSome_iff_exists.1 hsome
  simp only [offer, howner]
  exact ⟨ha, trivial⟩

theorem offer_of_free {a : Attributes} (ha : a.Owned) {name : String} (t : Term)
    (h : identifierText name ∉ keysOf a.values) :
    (a.offer name t).Owned ∧ (a.offer name t).values = a.values ++ [(identifierText name, t)] := by
  have hnone : a.owners.lookup (identifierText name) = none := by
    rw [List.lookup_eq_none_iff]
    rintro ⟨key, owner⟩ hmem
    rw [← ha] at h
    simp only [bne_iff_ne]
    rintro rfl
    exact h (mem_keysOf.2 ⟨owner, hmem⟩)
  simp only [offer, hnone]
  exact ⟨by rw [Owned, keysOf_append, keysOf_append, ha]; rfl, trivial⟩

/-- Attributes that others have grown to by offers of some items. -/
structure Grown {α : Type} (nameOf : α → String) (term : α → Except Fault Term) (items : List α)
    (a b : Attributes) : Prop where
  owned : b.Owned
  granted : ∃ added, b.values = a.values ++ added ∧ Granted nameOf term (keysOf a.values) items added

theorem grown_nil {α : Type} {nameOf : α → String} {term : α → Except Fault Term} {a : Attributes}
    (ha : a.Owned) : Grown nameOf term [] a a :=
  ⟨ha, [], (List.append_nil _).symm, .nil⟩

/-- One offer, to the attributes as they are but for collisions, and then the others. -/
theorem grown_cons {α : Type} {nameOf : α → String} {term : α → Except Fault Term}
    {a noted b : Attributes} {x : α} {rest : List α} {t : Term} (ha : a.Owned)
    (hvalues : noted.values = a.values) (howners : noted.owners = a.owners) (ht : term x = .ok t)
    (h : (noted.offer (nameOf x) t).Owned → Grown nameOf term rest (noted.offer (nameOf x) t) b) :
    Grown nameOf term (x :: rest) a b := by
  have hnoted : noted.Owned := by rw [Owned, hvalues, howners]; exact ha
  by_cases hx : wanted nameOf x ∈ keysOf a.values
  · obtain ⟨howned, hoffer⟩ := offer_of_taken hnoted t (hvalues ▸ hx)
    obtain ⟨hb, added, hadded, hgranted⟩ := h howned
    rw [hoffer, hvalues] at hadded hgranted
    refine ⟨hb, added, hadded, ?_⟩
    rwa [Granted, claimants, if_pos hx]
  · obtain ⟨howned, hoffer⟩ := offer_of_free hnoted t (hvalues ▸ hx)
    obtain ⟨hb, added, hadded, hgranted⟩ := h howned
    rw [hoffer, hvalues] at hadded hgranted
    rw [keysOf_append] at hgranted
    refine ⟨hb, (wanted nameOf x, t) :: added, hadded.trans (by rw [List.append_assoc]; rfl), ?_⟩
    rw [Granted, claimants, if_neg hx]
    exact .cons ⟨rfl, ht⟩ hgranted

end Attributes

/-! ### What settings, groups and plugins are granted -/

def entryName : String × Entry → String
  | (_, .setting s) => s.name
  | (_, .group name _) => name

/-- The term for a setting or a group. -/
def entryTerm (category : Option String) : String × Entry → Except Fault Term
  | (_, .setting s) => settingTerm s category
  | (_, .group _ entries) => do return .set (← addEntries category .empty entries).values

/-- The term for a plugin. -/
def pluginTerm (category : Option String) (plugin : String × Plugin) : Except Fault Term := do
  return .set (← pluginAttributes plugin.2 category).values

theorem grown_addEntries {category : Option String} {entries : List (String × Entry)}
    {a b : Attributes} (ha : a.Owned) (h : addEntries category a entries = .ok b) :
    a.Grown entryName (entryTerm category) entries b := by
  induction entries generalizing a with
  | nil =>
    rw [addEntries] at h
    cases h
    exact Attributes.grown_nil ha
  | cons entry rest ih =>
    obtain ⟨key, s | ⟨name, entries⟩⟩ := entry
    · rw [addEntries, bind_eq_ok] at h
      obtain ⟨t, ht, h⟩ := h
      exact Attributes.grown_cons ha rfl rfl ht fun howned => ih howned h
    · rw [addEntries, bind_eq_ok] at h
      obtain ⟨inner, hinner, h⟩ := h
      have ht : entryTerm category (key, .group name entries) = .ok (.set inner.values) := by
        rw [entryTerm, hinner]
        rfl
      have hvalues : (a.note inner.collisions).values = a.values := rfl
      exact Attributes.grown_cons ha hvalues rfl ht fun howned => ih howned h

theorem grown_addPlugins {category : Option String} {plugins : List (String × Plugin)}
    {a b : Attributes} (ha : a.Owned) (h : addPlugins category a plugins = .ok b) :
    a.Grown (·.1) (pluginTerm category) plugins b := by
  induction plugins generalizing a with
  | nil =>
    rw [addPlugins] at h
    cases h
    exact Attributes.grown_nil ha
  | cons plugin rest ih =>
    obtain ⟨name, p⟩ := plugin
    rw [addPlugins, bind_eq_ok] at h
    obtain ⟨inner, hinner, h⟩ := h
    have ht : pluginTerm category (name, p) = .ok (.set inner.values) := by
      rw [pluginTerm, hinner]
      rfl
    have hvalues : (a.note inner.collisions).values = a.values := rfl
    exact Attributes.grown_cons ha hvalues rfl ht fun howned => ih howned h

end SettingsHarvest.Nix
