import SettingsHarvest.Proofs.Correspondence

/-! One expression in two places.

What an expression comes to depends on its place through names only. Two places are `Beside` one another
if they are in one program and its scopes say the same about every name there; going to a part, or behind
wrappers, leads beside the place one comes from, as long as no scope is entered. An expression means the
same beside its place (`Moved.correspondence`), and an expression in which no name occurs means the same
anywhere (`Copied.correspondence`). -/
namespace SettingsHarvest
open Syntax Project

namespace Syntax.Site

/-! ### Scopes -/

theorem declaredBy_eq_none {s : Site} (hs : s.isScope = false) (name : String) :
    s.declaredBy name = .ok none := by
  have hkind : s.isFunction = false ∧ s.hasKind .program = false ∧ s.hasKind .statementBlock = false := by
    unfold isScope Node.isScope at hs
    unfold isFunction hasKind Node.hasKind kind?
    cases hk : s.node.kind? with
    | none => exact ⟨rfl, rfl, rfl⟩
    | some k =>
      rw [hk, Option.any_some, Bool.or_eq_false_iff, Bool.or_eq_false_iff] at hs
      exact ⟨hs.1.1, hs.1.2, hs.2⟩
  rw [declaredBy, hkind.1, hkind.2.1, hkind.2.2]
  rfl

theorem enclosing_inside (s : Site) (part : Node) : (s.inside part).enclosing = s :: s.enclosing := by
  have hgo (above : List Node) : enclosing.go (s.inside part) above = enclosing.go s above := by
    induction above with
    | nil => rfl
    | cons n rest ih => rw [enclosing.go, enclosing.go, ih]; rfl
  exact congrArg (s :: ·) (hgo s.above)

theorem scopedDeclaration_inside {s : Site} (hs : s.isScope = false) (part : Node) (name : String) :
    (s.inside part).scopedDeclaration? name = s.scopedDeclaration? name := by
  rw [scopedDeclaration?, enclosing_inside, firstSome, declaredBy_eq_none hs]
  rfl

theorem program_inside (s : Site) (part : Node) : (s.inside part).program = s.program := by
  rw [program, enclosing_inside, List.getLast?_cons, Option.getD_some]
  rfl

/-! ### Places -/

/-- Two places in one program where every name means the same. -/
structure Beside (s s' : Site) : Prop where
  file : s.file = s'.file
  program : s.program = s'.program
  declared : ∀ name, s.scopedDeclaration? name = s'.scopedDeclaration? name

namespace Beside

variable {s s' s'' : Site}

theorem refl (s : Site) : s.Beside s := ⟨rfl, rfl, fun _ => rfl⟩

theorem symm (h : s.Beside s') : s'.Beside s :=
  ⟨h.file.symm, h.program.symm, fun name => (h.declared name).symm⟩

theorem trans (h : s.Beside s') (h' : s'.Beside s'') : s.Beside s'' :=
  ⟨h.file.trans h'.file, h.program.trans h'.program,
    fun name => (h.declared name).trans (h'.declared name)⟩

theorem part (hs : s.isScope = false) (part : Node) : s.Beside (s.inside part) :=
  ⟨rfl, (s.program_inside part).symm, fun name => (scopedDeclaration_inside hs part name).symm⟩

theorem inside (h : s.Beside s') (hs : s.isScope = false) (hs' : s'.isScope = false)
    (part part' : Node) : (s.inside part).Beside (s'.inside part') :=
  (Beside.part hs part).symm.trans (h.trans (Beside.part hs' part'))

theorem isScope_wrapper {k : Kind} {r : Option Role} {parts : List Node} (hk : k.isWrapper = true) :
    (Node.tree k r parts).isScope = false := by
  cases k <;> first | rfl | cases hk

mutual

theorem core (file : String) : ∀ (above : List Node) (n : Node),
    Beside ⟨file, above, n⟩ ⟨file, (core above n).1, (core above n).2⟩
  | above, .token .. => refl _
  | above, .leaf .. => refl _
  | above, .tree k r parts => by
    unfold Site.core
    split
    · next hk =>
      dsimp only
      split
      · cases hlast : Site.coreOfLast (.tree k r parts :: above) parts with
        | none => exact refl _
        | some found => exact coreOfLast file (isScope_wrapper hk) hlast
      · cases hfirst : Site.coreOfFirst (.tree k r parts :: above) parts with
        | none => exact refl _
        | some found => exact coreOfFirst file (isScope_wrapper hk) hfirst
    · exact refl _

theorem coreOfFirst (file : String) {n : Node} {above : List Node} (hn : n.isScope = false) :
    ∀ {parts : List Node} {found : List Node × Node}, Site.coreOfFirst (n :: above) parts = some found →
      Beside ⟨file, above, n⟩ ⟨file, found.1, found.2⟩
  | [], _, hfound => nomatch hfound
  | part :: rest, _, hfound => by
    unfold Site.coreOfFirst at hfound
    split at hfound
    · cases hfound
      exact (Beside.part (s := ⟨file, above, n⟩) hn part).trans (core file (n :: above) part)
    · exact coreOfFirst file hn hfound

theorem coreOfLast (file : String) {n : Node} {above : List Node} (hn : n.isScope = false) :
    ∀ {parts : List Node} {found : List Node × Node}, Site.coreOfLast (n :: above) parts = some found →
      Beside ⟨file, above, n⟩ ⟨file, found.1, found.2⟩
  | [], _, hfound => nomatch hfound
  | part :: rest, _, hfound => by
    unfold Site.coreOfLast at hfound
    split at hfound
    · next hlast =>
      cases hfound
      exact coreOfLast file hn hlast
    · split at hfound
      · cases hfound
        exact (Beside.part (s := ⟨file, above, n⟩) hn part).trans (core file (n :: above) part)
      · cases hfound

end

/-- Behind its wrappers an expression is beside its place. -/
theorem unwrap (s : Site) : s.Beside s.unwrap := core s.file s.above s.node

/-! ### Names -/

variable {p : Project}

theorem declaration (h : s.Beside s') (htext : s.text = s'.text) :
    p.declaration? s = p.declaration? s' := by
  rw [Project.declaration?, Project.declaration?, htext, h.declared, h.file]

theorem initializerBySpelling (h : s.Beside s') (htext : s.text = s'.text) :
    Project.initializerBySpelling? s = Project.initializerBySpelling? s' := by
  rw [Project.initializerBySpelling?, Project.initializerBySpelling?, htext, h.program]

theorem initializer (h : s.Beside s') (htext : s.text = s'.text) :
    p.initializer? s = p.initializer? s' := by
  rw [Project.initializer?, Project.initializer?, h.declaration htext, h.initializerBySpelling htext]

end Beside
end Syntax.Site

/-! ### The same place -/

section Reflexive

variable {R I : Site → Site → Prop}

theorem option_rel_refl {α : Type} (P : α → α → Prop) (hP : ∀ a, P a a) (o : Option α) :
    Option.Rel P o o := by
  cases o with
  | none => exact .none
  | some a => exact .some (hP a)

theorem Declaration.Alike.refl (hR : ∀ s, R s s) (hI : ∀ s, I s s) (d : Declaration) :
    Declaration.Alike R I d d where
  name := rfl
  site := hR _
  binding := by
    cases hd : d.binding with
    | «variable» v => exact .initialized (option_rel_refl I hI v)
    | _ => exact .same _ nofun
  members _ := List.forall₂_same.2 fun _ _ =>
    ⟨option_rel_refl (fun n n' => memberName n = memberName n') (fun _ => rfl) _,
      option_rel_refl (Unwrapped R) (fun _ => hR _) _⟩

end Reflexive

/-! ### One node in two places -/

namespace Syntax.Site

mutual

/-- The expression behind wrappers does not depend on what is around them. -/
theorem core_snd (above above' : List Node) : ∀ n : Node, (core above n).2 = (core above' n).2
  | .token .. => rfl
  | .leaf .. => rfl
  | .tree k r parts => by
    unfold core
    split
    · dsimp only
      have hfirst := coreOfFirst_snd (.tree k r parts :: above) (.tree k r parts :: above') parts
      have hlast := coreOfLast_snd (.tree k r parts :: above) (.tree k r parts :: above') parts
      split
      · cases h : coreOfLast (.tree k r parts :: above) parts <;>
          cases h' : coreOfLast (.tree k r parts :: above') parts <;> simp_all
      · cases h : coreOfFirst (.tree k r parts :: above) parts <;>
          cases h' : coreOfFirst (.tree k r parts :: above') parts <;> simp_all
    · rfl

theorem coreOfFirst_snd (above above' : List Node) : ∀ parts : List Node,
    (coreOfFirst above parts).map (·.2) = (coreOfFirst above' parts).map (·.2)
  | [] => rfl
  | part :: rest => by
    unfold coreOfFirst
    split
    · rw [Option.map_some, Option.map_some, core_snd above above' part]
    · exact coreOfFirst_snd above above' rest

theorem coreOfLast_snd (above above' : List Node) : ∀ parts : List Node,
    (coreOfLast above parts).map (·.2) = (coreOfLast above' parts).map (·.2)
  | [] => rfl
  | part :: rest => by
    have hrest := coreOfLast_snd above above' rest
    unfold coreOfLast
    cases h : coreOfLast above rest <;> cases h' : coreOfLast above' rest <;> rw [h, h'] at hrest
    · dsimp only
      split
      · rw [Option.map_some, Option.map_some, core_snd above above' part]
      · rfl
    · cases hrest
    · cases hrest
    · exact hrest

end

variable {s s' : Site}

theorem unwrap_node (h : s.node = s'.node) : s.unwrap.node = s'.unwrap.node := by
  show (core s.above s.node).2 = (core s'.above s'.node).2
  rw [h]
  exact core_snd _ _ _

theorem memberKey_eq_of_node (h : s.node = s'.node) : s.memberKey? = s'.memberKey? := by
  unfold memberKey? part?
  rw [h]
  cases s'.node.part? .key <;> cases s'.node.part? .name <;> rfl

theorem part_map_eq_of_node {α : Type} (f : Node → α) (h : s.node = s'.node) (r : Role) :
    (s.part? r).map (fun t => f t.node) = (s'.part? r).map fun t => f t.node := by
  unfold part?
  rw [h, Option.map_map, Option.map_map]
  rfl

end Syntax.Site

/-- A relation between places that hold the same expression, and hold the same parts of it where no scope
is entered. -/
structure PlacesAlike (R : Site → Site → Prop) : Prop where
  node {s s' : Site} : R s s' → s.node = s'.node
  unwrap {s s' : Site} : R s s' → R s.unwrap s'.unwrap
  inside {s s' : Site} : R s s' → s.isScope = false → ∀ part ∈ s.node.parts,
    R (s.inside part) (s'.inside part)

namespace PlacesAlike

variable {R : Site → Site → Prop} {s s' : Site}

theorem part (hR : PlacesAlike R) (h : R s s') (hs : s.isScope = false) (r : Role) :
    Option.Rel R (s.part? r) (s'.part? r) := by
  unfold Site.part?
  rw [← hR.node h]
  cases hpart : s.node.part? r with
  | none => exact .none
  | some part => exact .some (hR.inside h hs part (List.mem_of_find?_eq_some hpart))

theorem named (hR : PlacesAlike R) (h : R s s') (hs : s.isScope = false) :
    List.Forall₂ R s.named s'.named := by
  unfold Site.named
  rw [← hR.node h, List.forall₂_map_left_iff, List.forall₂_map_right_iff, List.forall₂_same]
  exact fun part hpart => hR.inside h hs part (List.mem_filter.1 hpart).1

/-- Where names are declared alike as well, everything is the same in both places. -/
theorem correspondence {p : Project} {I : Site → Site → Prop} (hR : PlacesAlike R)
    (hsame : ∀ {s s'}, R s s' → I s s') (hinitial : ∀ {s s'}, I s s' → Unwrapped R s s')
    (hdeclaration : ∀ {s s'}, R s s' → s.isNameUse = true →
      Parallel (Option.Rel (Declaration.Alike R I)) (p.declaration? s) (p.declaration? s'))
    (hspelled : ∀ {s s'}, R s s' → s.isNameUse = true →
      Option.Rel I (initializerBySpelling? s) (initializerBySpelling? s')) :
    Correspondence p p R I where
  unwrap h := hR.unwrap h
  same := hsame
  initial := hinitial
  kind h := congrArg Node.kind? (hR.node h)
  word h _ := congrArg Node.text (hR.node h)
  substitutions h _ := by rw [Site.hasSubstitutions, Site.hasSubstitutions, hR.node h]
  operator h := congrArg (·.getD "") (Site.part_map_eq_of_node Node.typeName (hR.node h) .operator)
  part h hs r := option_rel_mono (hR.part h hs r) fun _ _ => hR.unwrap
  property h _ := Site.part_map_eq_of_node Node.text (hR.node h) .property
  pairKey h _ := Site.memberKey_eq_of_node (hR.node h)
  elements h hs := (hR.named h (Site.isScope_eq_false hs rfl)).imp fun _ _ => hR.unwrap
  members h hs := hR.named h (Site.isScope_eq_false hs rfl)
  declaration := hdeclaration
  spelled := hspelled
  outside h key := by rw [Site.text, Site.text, hR.node h]

end PlacesAlike

/-! ### Beside the place of an expression -/

/-- The same expression, beside its place. -/
def Syntax.Site.Moved (s s' : Site) : Prop := s.node = s'.node ∧ s.Beside s'

namespace Syntax.Site.Moved

variable {s s' : Site}

theorem refl (s : Site) : s.Moved s := ⟨rfl, .refl s⟩

theorem placesAlike : PlacesAlike Moved where
  node h := h.1
  unwrap h := ⟨unwrap_node h.1, (Beside.unwrap _).symm.trans (h.2.trans (Beside.unwrap _))⟩
  inside {s s'} h hs part _ := by
    refine ⟨rfl, h.2.inside hs ?_ part part⟩
    rwa [isScope, ← h.1]

/-- **Places.** Beside its place an expression means the same. -/
theorem correspondence (p : Project) : Correspondence p p Moved (Unwrapped Moved) := by
  refine placesAlike.correspondence placesAlike.unwrap id (fun {s s'} h _ => ?_) fun {s s'} h _ => ?_
  · rw [h.2.declaration (congrArg Node.text h.1)]
    refine (Parallel.refl _).mono fun o _ ho => ho ▸ ?_
    exact option_rel_refl _ (.refl refl fun s => refl s.unwrap) o
  · rw [h.2.initializerBySpelling (congrArg Node.text h.1)]
    exact option_rel_refl _ (fun s => refl s.unwrap) _

end Syntax.Site.Moved

/-! ### Closed expressions -/

/-- An expression in which no name occurs. -/
def Syntax.Site.IsClosed (s : Site) : Prop := ∀ name, ¬s.Mentions name

/-- The same closed expression, anywhere. -/
def Syntax.Site.Copied (s s' : Site) : Prop := s.node = s'.node ∧ s.IsClosed

namespace Syntax.Site

variable {s s' : Site}

theorem isClosed_iff : s.IsClosed ↔ ∀ t ∈ s.walk, t.isNameUse = false := by
  refine ⟨fun h t ht => ?_, fun h name hname => ?_⟩
  · exact Bool.not_eq_true _ ▸ fun hname => h t ⟨ht, hname⟩
  · exact absurd hname.isName (by rw [h name hname.below]; decide)

theorem IsClosed.unwrap (h : s.IsClosed) : s.unwrap.IsClosed := fun name hname => h name (.of_unwrap hname)

theorem IsClosed.inside (h : s.IsClosed) {part : Node} (hpart : part ∈ s.node.parts) :
    (s.inside part).IsClosed := fun name hname => h name ⟨mem_walk_inside hpart hname.below, hname.isName⟩

theorem IsClosed.not_isNameUse (h : s.IsClosed) : s.isNameUse = false :=
  Bool.not_eq_true _ ▸ fun hname => h s (.self hname)

theorem Copied.placesAlike : PlacesAlike Copied where
  node h := h.1
  unwrap h := ⟨unwrap_node h.1, h.2.unwrap⟩
  inside h _ _ hpart := ⟨rfl, h.2.inside hpart⟩

/-- **Closed expressions** mean the same anywhere. -/
theorem Copied.correspondence (p : Project) : Correspondence p p Copied (Unwrapped Copied) :=
  have hnone {s s' : Site} (h : Copied s s') (hname : s.isNameUse = true) : False :=
    Bool.false_ne_true (h.2.not_isNameUse.symm.trans hname)
  Copied.placesAlike.correspondence Copied.placesAlike.unwrap id (fun h hname => (hnone h hname).elim)
    fun h hname => (hnone h hname).elim

end Syntax.Site
end SettingsHarvest
