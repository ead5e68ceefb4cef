import SettingsHarvest.Proofs.Parallel
import SettingsHarvest.Proofs.Surroundings

/-! Trees that differ in wrappers and layout.

A tree is `Restyled` into another one by adding wrappers around expressions in it, and by setting it
differently: white space may change and comments may come and go. Which wrappers may be added, and what
the nodes around them have to keep, is up to a `Style`. The nodes around a site are restyled with it,
and the wrappers added among them are passed over (`Around`); behind its wrappers, a site corresponds to
one of the same kind again (`Restyled.unwrap`). -/
namespace SettingsHarvest
open Syntax

namespace Syntax

/-! ### Wrappers -/

/-- The roles in which a form takes operands and initializers. -/
def Kind.operandRoles : Kind → List Role
  | .binaryExpression => [.left, .right]
  | .unaryExpression => [.argument]
  | .memberExpression => [.object]
  | .subscriptExpression => [.object, .index]
  | .variableDeclarator | .enumAssignment | .pair | .requiredParameter | .optionalParameter
  | .publicFieldDefinition => [.value]
  | _ => []

/-- Statements that declare names, and those around them. -/
def Kind.declares : Kind → Bool
  | .lexicalDeclaration | .variableDeclaration | .enumDeclaration | .functionDeclaration
  | .generatorFunctionDeclaration | .classDeclaration | .abstractClassDeclaration
  | .importStatement | .exportStatement | .ambientDeclaration => true
  | _ => false

namespace Node

/-- Whether a part of a node of some kind is an expression around which wrappers may be added: an
operand or initializer, an element of a list, or what is wrapped already. -/
def mayWrap (k : Kind) (part : Node) : Bool :=
  (match part.role? with
    | some r => k.operandRoles.contains r
    | none => k.isWrapper || (k == .array && !part.hasKind .spreadElement))
  && !part.kind?.any Kind.declares

/-- A wrapper, or several, around an expression: it is the first named part, of a type assertion the
last, and the types beside it declare no variables. -/
inductive Wraps : Node → Node → Prop where
  | around {k : Kind} {r : Option Role} {before after : List Node} {inner : Node} :
    k.isWrapper = true → inner.isNamedPart = true →
    (if k = .typeAssertion then ∀ part ∈ after, part.isNamedPart = false
      else ∀ part ∈ before, part.isNamedPart = false) →
    (∀ part ∈ before ++ after, part.Throughout fun m => m.hasKind .variableDeclarator = false) →
    Wraps inner (.tree k r (before ++ inner :: after))
  | more {inner middle outer : Node} : Wraps inner middle → Wraps middle outer → Wraps inner outer

end Node

/-- Which wrappers may be added around a part of a node of some kind, inside and outside given, and
what a node that is made of restyled parts has to keep. -/
structure Style where
  adds : Kind → Node → Node → Prop
  keeps : Node → Node → Prop

/-! ### Trees -/

/-- Parts whose spelling is their meaning: names of members, functions, enumerations and imports. -/
def Node.isSpelling (k : Kind) (part : Node) : Bool :=
  match k, part.role? with
  | .memberExpression, some .property => true
  | .enumDeclaration, some .name | .functionDeclaration, some .name
  | .generatorFunctionDeclaration, some .name | .classDeclaration, some .name
  | .abstractClassDeclaration, some .name | .enumAssignment, some .name
  | .importSpecifier, some .name | .exportSpecifier, some .name => true
  | .importSpecifier, some .rename | .exportSpecifier, some .rename => true
  | .importStatement, some .source => true
  | .namespaceImport, _ => true
  | .enumBody, _ => !part.hasKind .enumAssignment
  | _, _ => false

/-- The roles in which a part is spelled, by the kind of the node that it is a part of. -/
def Node.spelledRoles : List (Kind × Role) :=
  [(.memberExpression, .property), (.enumDeclaration, .name), (.functionDeclaration, .name),
    (.generatorFunctionDeclaration, .name), (.classDeclaration, .name),
    (.abstractClassDeclaration, .name), (.enumAssignment, .name), (.importSpecifier, .name),
    (.exportSpecifier, .name), (.importSpecifier, .rename), (.exportSpecifier, .rename),
    (.importStatement, .source)]

theorem Node.isSpelling_of_role {k : Kind} {r : Role} (hspelled : (k, r) ∈ Node.spelledRoles) (part : Node)
    (hrole : part.role? = some r) : part.isSpelling k = true := by
  simp only [Node.spelledRoles, List.mem_cons, List.not_mem_nil, or_false, Prod.mk.injEq] at hspelled
  unfold Node.isSpelling
  rw [hrole]
  rcases hspelled with ⟨rfl, rfl⟩ | ⟨rfl, rfl⟩ | ⟨rfl, rfl⟩ | ⟨rfl, rfl⟩ | ⟨rfl, rfl⟩ | ⟨rfl, rfl⟩ |
    ⟨rfl, rfl⟩ | ⟨rfl, rfl⟩ | ⟨rfl, rfl⟩ | ⟨rfl, rfl⟩ | ⟨rfl, rfl⟩ | ⟨rfl, rfl⟩ <;> rfl

theorem Node.isSpelling_namespaceImport (part : Node) : part.isSpelling .namespaceImport = true := by
  unfold Node.isSpelling
  cases part.role? <;> rfl

theorem Node.isSpelling_enumBody (part : Node) :
    part.isSpelling .enumBody = !part.hasKind .enumAssignment := by
  unfold Node.isSpelling
  cases part.role? <;> rfl

mutual
/-- A node set in another style. -/
inductive Restyled (σ : Style) : Node → Node → Prop where
  | token {r r' : Option Role} {b b' t : String} : Restyled σ (.token r b t) (.token r' b' t)
  | leaf {k : Kind} {r r' : Option Role} {b b' t : String} :
    Restyled σ (.leaf k r b t) (.leaf k r' b' t)
  | tree {k : Kind} {r r' : Option Role} {parts parts' : List Node} :
    RestyledParts σ k parts parts' → σ.keeps (.tree k r parts) (.tree k r' parts') →
    Restyled σ (.tree k r parts) (.tree k r' parts')

/-- A part of a node of some kind: with wrappers added around it, or not. -/
inductive RestyledPart (σ : Style) : Kind → Node → Node → Prop where
  | same {k : Kind} {part part' : Node} : Restyled σ part part' →
    (part.isSpelling k = true → part.text = part'.text) → RestyledPart σ k part part'
  | wrapped {k : Kind} {part inner outer : Node} : part.mayWrap k = true → Restyled σ part inner →
    inner.Wraps outer → σ.adds k inner outer → RestyledPart σ k part outer

/-- The parts of a node of some kind, comments aside. -/
inductive RestyledParts (σ : Style) : Kind → List Node → List Node → Prop where
  | nil {k : Kind} : RestyledParts σ k [] []
  | cons {k : Kind} {part part' : Node} {rest rest' : List Node} : part.role? = part'.role? →
    RestyledPart σ k part part' → RestyledParts σ k rest rest' →
    RestyledParts σ k (part :: rest) (part' :: rest')
  | comment {k : Kind} {b t : String} {rest rest' : List Node} : RestyledParts σ k rest rest' →
    RestyledParts σ k (.leaf .comment none b t :: rest) rest'
  | comment' {k : Kind} {b t : String} {rest rest' : List Node} : RestyledParts σ k rest rest' →
    RestyledParts σ k rest (.leaf .comment none b t :: rest')
end

/-- Nodes that wrappers are added in. -/
def Style.AddsIn (σ : Style) (n : Node) : Prop :=
  ∃ k inner outer, n.kind? = some k ∧ σ.adds k inner outer

/-- The nodes around a site, wrappers added among them. -/
inductive Around (σ : Style) : List Node → List Node → Prop where
  | nil : Around σ [] []
  | cons {n n' : Node} {above above' : List Node} : Restyled σ n n' → Around σ above above' →
    Around σ (n :: above) (n' :: above')
  | added {n wrapper : Node} {above above' : List Node} : σ.AddsIn n →
    wrapper.kind?.any Kind.isWrapper = true → Around σ (n :: above) above' →
    Around σ (n :: above) (wrapper :: above')

/-- A site with what is around it. -/
structure Site.Restyled (σ : Style) (s s' : Site) : Prop where
  file : s.file = s'.file
  around : Around σ s.above s'.above
  node : Syntax.Restyled σ s.node s'.node

/-- A node and the nodes around it. -/
structure RestyledIn (σ : Style) (found found' : List Node × Node) : Prop where
  around : Around σ found.1 found'.1
  node : Syntax.Restyled σ found.2 found'.2

end Syntax

namespace Syntax

variable {σ : Style} {k : Kind} {n n' inner outer : Node} {parts parts' above above' : List Node}

/-! ### What wrappers leave alone -/

theorem Kind.exists_wrapper {kind? : Option Kind} (h : kind?.any Kind.isWrapper = true) :
    ∃ k, kind? = some k ∧ k.isWrapper = true := by
  cases kind? with
  | none => cases h
  | some k => exact ⟨k, rfl, h⟩

namespace Node.Wraps

theorem isNamedPart (h : inner.Wraps outer) : inner.isNamedPart = true := by
  induction h with
  | around _ hinner => exact hinner
  | more _ _ ih _ => exact ih

theorem isWrapper (h : inner.Wraps outer) : outer.kind?.any Kind.isWrapper = true := by
  induction h with
  | around hk => exact hk
  | more _ _ _ ih => exact ih

end Node.Wraps

namespace Site

theorem coreOfFirst_append {before after : List Node} (hinner : inner.isNamedPart = true)
    (hbefore : ∀ part ∈ before, part.isNamedPart = false) :
    coreOfFirst above (before ++ inner :: after) = some (core above inner) := by
  induction before with
  | nil => rw [List.nil_append, coreOfFirst, if_pos hinner]
  | cons part rest ih =>
    obtain ⟨hpart, hrest⟩ := List.forall_mem_cons.1 hbefore
    rw [List.cons_append, coreOfFirst, hpart, if_neg (by decide), ih hrest]

theorem coreOfLast_eq_none (hparts : ∀ part ∈ parts, part.isNamedPart = false) :
    coreOfLast above parts = none := by
  induction parts with
  | nil => rfl
  | cons part rest ih =>
    obtain ⟨hpart, hrest⟩ := List.forall_mem_cons.1 hparts
    rw [coreOfLast, ih hrest]
    dsimp only
    rw [hpart, if_neg (by decide)]

theorem coreOfLast_append {before after : List Node} (hinner : inner.isNamedPart = true)
    (hafter : ∀ part ∈ after, part.isNamedPart = false) :
    coreOfLast above (before ++ inner :: after) = some (core above inner) := by
  induction before with
  | nil =>
    rw [List.nil_append, coreOfLast, coreOfLast_eq_none hafter]
    dsimp only
    rw [if_pos hinner]
  | cons part rest ih => rw [List.cons_append, coreOfLast, ih]

theorem coreOfLast_comment {b t : String} :
    coreOfLast above (.leaf .comment none b t :: parts) = coreOfLast above parts := by
  rw [coreOfLast]
  split
  · next hfound => exact hfound.symm
  · next hnone => exact hnone.symm

/-- The variables declared at or below a node. -/
def declarators (file : String) (above : List Node) (n : Node) : List Site :=
  (walkFrom file above n).filter (·.hasKind .variableDeclarator)

theorem walkAllFrom_append (file : String) (above before after : List Node) :
    walkAllFrom file above (before ++ after) =
      walkAllFrom file above before ++ walkAllFrom file above after := by
  simp only [walkAllFrom_eq_flatMap, List.flatMap_append]

mutual

theorem node_mem_of_walkFrom {file : String} {above : List Node} {t : Site} :
    ∀ {n : Node}, t ∈ walkFrom file above n → t.node ∈ n.walk
  | .token .., h => by
    cases List.mem_singleton.1 h
    exact List.mem_cons_self
  | .leaf .., h => by
    cases List.mem_singleton.1 h
    exact List.mem_cons_self
  | .tree .., h => by
    rcases List.mem_cons.1 h with rfl | h
    · exact List.mem_cons_self
    · exact List.mem_cons_of_mem _ (node_mem_of_walkAllFrom h)

theorem node_mem_of_walkAllFrom {file : String} {above : List Node} {t : Site} :
    ∀ {parts : List Node}, t ∈ walkAllFrom file above parts → t.node ∈ Node.walkAll parts
  | [], h => nomatch h
  | _ :: _, h => by
    rcases List.mem_append.1 h with h | h
    · exact List.mem_append_left _ (node_mem_of_walkFrom h)
    · exact List.mem_append_right _ (node_mem_of_walkAllFrom h)

end

/-- Parts without variables below them add none. -/
theorem declarators_eq_nil {file : String}
    (h : ∀ part ∈ parts, part.Throughout fun m => m.hasKind .variableDeclarator = false) :
    (walkAllFrom file above parts).filter (·.hasKind .variableDeclarator) = [] := by
  refine List.filter_eq_nil_iff.2 fun t ht => ?_
  obtain ⟨part, hpart, hmem⟩ := Node.mem_walkAll.1 (node_mem_of_walkAllFrom ht)
  exact Bool.not_eq_true _ ▸ h part hpart t.node hmem

/-- Behind wrappers is the same expression, with the wrappers around it, and they declare nothing. -/
theorem exists_wrappers (h : inner.Wraps outer) : ∃ wrappers : List Node,
    (∀ w ∈ wrappers, w.kind?.any Kind.isWrapper = true) ∧
    (∀ above, core above outer = core (wrappers ++ above) inner) ∧
    ∀ file above, declarators file above outer = declarators file (wrappers ++ above) inner := by
  induction h with
  | @around k r before after inner hk hinner hside hsilent =>
    obtain ⟨hbefore, hafter⟩ := List.forall_mem_append.1 hsilent
    refine ⟨[.tree k r (before ++ inner :: after)], List.forall_mem_singleton.2 hk, fun above => ?_,
      fun file above => ?_⟩
    · rw [core, if_pos hk]
      dsimp only
      by_cases hassertion : k = .typeAssertion
      · rw [if_pos hassertion] at hside
        rw [if_pos (by simpa using hassertion), coreOfLast_append hinner hside]
        rfl
      · rw [if_neg hassertion] at hside
        rw [if_neg (by simpa using hassertion), coreOfFirst_append hinner hside]
        rfl
    · have hself : (⟨file, above, .tree k r (before ++ inner :: after)⟩ : Site).hasKind
          .variableDeclarator = false := by
        refine beq_eq_false_iff_ne.2 fun heq => ?_
        cases Option.some.inj heq
        cases hk
      unfold declarators
      rw [walkFrom, List.filter_cons, hself, if_neg (by decide), walkAllFrom_append,
        List.filter_append, declarators_eq_nil hbefore, walkAllFrom, List.filter_append,
        declarators_eq_nil hafter, List.nil_append, List.append_nil]
      rfl
  | more _ _ ih ih' =>
    obtain ⟨wrappers, hall, hcore, hdeclared⟩ := ih
    obtain ⟨wrappers', hall', hcore', hdeclared'⟩ := ih'
    refine ⟨wrappers ++ wrappers', List.forall_mem_append.2 ⟨hall, hall'⟩, fun above => ?_,
      fun file above => ?_⟩
    · rw [hcore', hcore, List.append_assoc]
    · rw [hdeclared', hdeclared, List.append_assoc]

end Site

/-! ### Restyled nodes -/

mutual

/-- Nothing has to be added. -/
theorem Restyled.refl {σ : Style} : ∀ n : Node, (n.Throughout fun m => σ.keeps m m) → Restyled σ n n
  | .token .., _ => .token
  | .leaf .., _ => .leaf
  | .tree k _ parts, h => .tree (RestyledParts.refl k parts fun _ hpart => h.part hpart) h.self

theorem RestyledParts.refl {σ : Style} (k : Kind) : ∀ parts : List Node,
    (∀ part ∈ parts, part.Throughout fun m => σ.keeps m m) → RestyledParts σ k parts parts
  | [], _ => .nil
  | part :: rest, h =>
    have hparts := List.forall_mem_cons.1 h
    .cons rfl (.same (Restyled.refl part hparts.1) fun _ => rfl) (RestyledParts.refl k rest hparts.2)

end

theorem Restyled.kind_eq (h : Restyled σ n n') : n.kind? = n'.kind? := by
  cases h <;> rfl

theorem Restyled.hasKind_eq (h : Restyled σ n n') (k : Kind) : n.hasKind k = n'.hasKind k := by
  rw [Node.hasKind, Node.hasKind, h.kind_eq]

theorem Restyled.isNamedPart_eq (h : Restyled σ n n') : n.isNamedPart = n'.isNamedPart := by
  rw [Node.isNamedPart, Node.isNamedPart, h.kind_eq]

theorem Restyled.typeName_eq (h : Restyled σ n n') : n.typeName = n'.typeName := by
  cases h <;> rfl

theorem Restyled.aligned (h : Restyled σ n n') (hk : n.kind? = some k) :
    RestyledParts σ k n.parts n'.parts := by
  cases h with
  | token => cases hk
  | leaf => exact .nil
  | tree hparts =>
    cases hk
    exact hparts

theorem RestyledPart.isNamedPart_eq (h : RestyledPart σ k n n') : n.isNamedPart = n'.isNamedPart := by
  cases h with
  | same h => exact h.isNamedPart_eq
  | wrapped _ h hwraps =>
    obtain ⟨k, hk, hwrapper⟩ := Kind.exists_wrapper hwraps.isWrapper
    rw [h.isNamedPart_eq, hwraps.isNamedPart, Node.isNamedPart, hk]
    cases k <;> first | rfl | cases hwrapper

theorem Kind.not_mem_operandRoles {r : Role}
    (hr : r ∉ [Role.left, .right, .argument, .object, .index, .value]) (k : Kind) :
    r ∉ k.operandRoles := by
  intro h
  unfold Kind.operandRoles at h
  split at h <;> simp_all

/-- A node of a kind whose parts are no expressions. -/
def Kind.takesNoWrappers (k : Kind) : Bool := k.operandRoles.isEmpty && !k.isWrapper && k != .array

theorem Node.mayWrap_eq_false (hk : k.takesNoWrappers = true) (part : Node) :
    part.mayWrap k = false := by
  simp only [Kind.takesNoWrappers, Bool.and_eq_true, List.isEmpty_iff, Bool.not_eq_true',
    bne_iff_ne] at hk
  obtain ⟨⟨hroles, hwrapper⟩, harray⟩ := hk
  unfold Node.mayWrap
  cases part.role? with
  | some r => simp [hroles]
  | none => simp [hwrapper, harray]

theorem Node.mayWrap_of_role {part : Node} {r : Role} (hrole : part.role? = some r)
    (hr : r ∉ k.operandRoles) : part.mayWrap k = false := by
  rw [Node.mayWrap, hrole]
  simp [hr]

/-- Around a part that takes no wrappers there are none. -/
theorem RestyledPart.restyled (h : RestyledPart σ k n n') (hn : n.mayWrap k = false) :
    Restyled σ n n' := by
  cases h with
  | same h => exact h
  | wrapped hwrap => cases hn.symm.trans hwrap

/-- The same parts in order, comments aside. -/
inductive Aligned (P : Node → Node → Prop) : List Node → List Node → Prop where
  | nil : Aligned P [] []
  | cons {part part' : Node} {rest rest' : List Node} : part.role? = part'.role? → P part part' →
    Aligned P rest rest' → Aligned P (part :: rest) (part' :: rest')
  | comment {b t : String} {rest rest' : List Node} : Aligned P rest rest' →
    Aligned P (.leaf .comment none b t :: rest) rest'
  | comment' {b t : String} {rest rest' : List Node} : Aligned P rest rest' →
    Aligned P rest (.leaf .comment none b t :: rest')

theorem RestyledParts.aligned : ∀ {parts parts' : List Node}, RestyledParts σ k parts parts' →
    Aligned (RestyledPart σ k) parts parts'
  | _, _, .nil => .nil
  | _, _, .cons hrole hpart hrest => .cons hrole hpart hrest.aligned
  | _, _, .comment hrest => .comment hrest.aligned
  | _, _, .comment' hrest => .comment' hrest.aligned

/-- The parts in a role. -/
theorem Aligned.find {P : Node → Node → Prop} (h : Aligned P parts parts') (r : Role) :
    Option.Rel (fun part part' => part.role? = some r ∧ P part part')
      (parts.find? (·.role? == some r)) (parts'.find? (·.role? == some r)) := by
  induction h with
  | nil => exact .none
  | cons hrole hpart _ ih =>
    rw [List.find?_cons, List.find?_cons, ← hrole]
    split
    · next hr => exact .some ⟨eq_of_beq hr, hpart⟩
    · exact ih
  | comment _ ih => exact ih
  | comment' _ ih => exact ih

theorem Aligned.named {P : Node → Node → Prop} (h : Aligned P parts parts')
    (hP : ∀ n n', P n n' → n.isNamedPart = n'.isNamedPart) :
    List.Forall₂ P (parts.filter Node.isNamedPart) (parts'.filter Node.isNamedPart) := by
  induction h with
  | nil => exact .nil
  | cons _ hpart _ ih =>
    rw [List.filter_cons, List.filter_cons, hP _ _ hpart]
    split
    · exact .cons hpart ih
    · exact ih
  | comment _ ih => exact ih
  | comment' _ ih => exact ih

theorem Aligned.any_role {P : Node → Node → Prop} (h : Aligned P parts parts') (r : Role) :
    parts.any (·.role? == some r) = parts'.any (·.role? == some r) := by
  induction h with
  | nil => rfl
  | cons hrole _ _ ih => rw [List.any_cons, List.any_cons, hrole, ih]
  | comment _ ih => exact ih
  | comment' _ ih => exact ih

/-! ### Places -/

theorem Around.append {wrappers : List Node} (hn : σ.AddsIn n) (h : Around σ (n :: above) above')
    (hall : ∀ w ∈ wrappers, w.kind?.any Kind.isWrapper = true) :
    Around σ (n :: above) (wrappers ++ above') := by
  induction wrappers with
  | nil => exact h
  | cons w rest ih =>
    obtain ⟨hw, hrest⟩ := List.forall_mem_cons.1 hall
    exact .added hn hw (ih hrest)

mutual

/-- Wrappers are taken off on both sides. -/
theorem Restyled.core : ∀ {n n' above above'}, Restyled σ n n' → Around σ above above' →
    RestyledIn σ (Site.core above n) (Site.core above' n')
  | _, _, _, _, .token, ha => ⟨ha, .token⟩
  | _, _, _, _, .leaf, ha => ⟨ha, .leaf⟩
  | _, _, above, above', @Restyled.tree _ k r r' parts parts' hparts hkeeps, ha => by
    have hnode : Restyled σ (.tree k r parts) (.tree k r' parts') := .tree hparts hkeeps
    have hhere : Around σ (.tree k r parts :: above) (.tree k r' parts' :: above') := .cons hnode ha
    rw [Site.core, Site.core]
    split
    · dsimp only
      have hinner : Option.Rel (RestyledIn σ)
          (if k == .typeAssertion then Site.coreOfLast (.tree k r parts :: above) parts
            else Site.coreOfFirst (.tree k r parts :: above) parts)
          (if k == .typeAssertion then Site.coreOfLast (.tree k r' parts' :: above') parts'
            else Site.coreOfFirst (.tree k r' parts' :: above') parts') := by
        split
        · exact hparts.coreOfLast rfl hhere
        · exact hparts.coreOfFirst rfl hhere
      generalize (if k == .typeAssertion then Site.coreOfLast (.tree k r parts :: above) parts
        else Site.coreOfFirst (.tree k r parts :: above) parts) = found at hinner
      generalize (if k == .typeAssertion then Site.coreOfLast (.tree k r' parts' :: above') parts'
        else Site.coreOfFirst (.tree k r' parts' :: above') parts') = found' at hinner
      cases hinner with
      | none => exact ⟨ha, hnode⟩
      | some hfound => exact hfound
    · exact ⟨ha, hnode⟩

theorem RestyledPart.core : ∀ {k part part' n above above'}, RestyledPart σ k part part' →
    n.kind? = some k → Around σ (n :: above) above' →
    RestyledIn σ (Site.core (n :: above) part) (Site.core above' part')
  | _, _, _, _, _, _, .same h _, _, ha => h.core ha
  | _, _, _, _, _, above', .wrapped _ h hwraps hadds, hn, ha => by
    obtain ⟨wrappers, hall, hcore, -⟩ := Site.exists_wrappers hwraps
    rw [hcore above']
    exact h.core (ha.append ⟨_, _, _, hn, hadds⟩ hall)

theorem RestyledParts.coreOfFirst : ∀ {k parts parts' n above above'}, RestyledParts σ k parts parts' →
    n.kind? = some k → Around σ (n :: above) above' →
    Option.Rel (RestyledIn σ) (Site.coreOfFirst (n :: above) parts) (Site.coreOfFirst above' parts')
  | _, _, _, _, _, _, .nil, _, _ => .none
  | _, _, _, _, _, _, .cons _ hpart hrest, hn, ha => by
    rw [Site.coreOfFirst, Site.coreOfFirst, hpart.isNamedPart_eq]
    split
    · exact .some (hpart.core hn ha)
    · exact hrest.coreOfFirst hn ha
  | _, _, _, _, _, _, .comment hrest, hn, ha => hrest.coreOfFirst hn ha
  | _, _, _, _, _, _, .comment' hrest, hn, ha => hrest.coreOfFirst hn ha

theorem RestyledParts.coreOfLast : ∀ {k parts parts' n above above'}, RestyledParts σ k parts parts' →
    n.kind? = some k → Around σ (n :: above) above' →
    Option.Rel (RestyledIn σ) (Site.coreOfLast (n :: above) parts) (Site.coreOfLast above' parts')
  | _, _, _, _, _, _, .nil, _, _ => .none
  | _, _, _, _, above, above', @RestyledParts.cons _ _ part part' rest rest' _ hpart hrest, hn, ha => by
    rw [Site.coreOfLast, Site.coreOfLast, hpart.isNamedPart_eq]
    rcases option_rel_cases (hrest.coreOfLast hn ha) with
      ⟨hnone, hnone'⟩ | ⟨_, _, hsome, hsome', hfound⟩
    · rw [hnone, hnone']
      dsimp only
      split
      · exact .some (hpart.core hn ha)
      · exact .none
    · rw [hsome, hsome']
      exact .some hfound
  | _, _, _, _, _, _, .comment hrest, hn, ha => by
    rw [Site.coreOfLast_comment]
    exact hrest.coreOfLast hn ha
  | _, _, _, _, _, _, .comment' hrest, hn, ha => by
    rw [Site.coreOfLast_comment]
    exact hrest.coreOfLast hn ha

end

theorem Around.site {file : String} (hn : Restyled σ n n') (ha : Around σ above above') :
    Site.Restyled σ ⟨file, above, n⟩ ⟨file, above', n'⟩ := ⟨rfl, ha, hn⟩

mutual

/-- The variables that are declared below come in the same order. -/
theorem Restyled.declarators (file : String) : ∀ {n n' above above'}, Restyled σ n n' →
    Around σ above above' → List.Forall₂ (Site.Restyled σ) (Site.declarators file above n)
      (Site.declarators file above' n')
  | _, _, _, _, .token, _ => .nil
  | _, _, _, _, .leaf (k := k), ha => by
    unfold Site.declarators
    refine forall₂_filter (P := Site.Restyled σ) (.cons (Around.site .leaf ha) .nil) fun _ _ h => ?_
    exact h.node.hasKind_eq _
  | _, _, _, _, .tree hparts hkeeps, ha => by
    have hsite := @Around.site _ _ _ _ _ file (.tree hparts hkeeps) ha
    have hbelow := hparts.declarators file rfl (.cons hsite.node ha)
    unfold Site.declarators
    have hkind := hsite.node.hasKind_eq .variableDeclarator
    rw [Site.walkFrom, Site.walkFrom, List.filter_cons, List.filter_cons, Site.hasKind, Site.hasKind,
      ← hkind]
    split
    · exact .cons hsite hbelow
    · exact hbelow

theorem RestyledPart.declarators (file : String) : ∀ {k part part' n above above'},
    RestyledPart σ k part part' → n.kind? = some k → Around σ (n :: above) above' →
    List.Forall₂ (Site.Restyled σ) (Site.declarators file (n :: above) part)
      (Site.declarators file above' part')
  | _, _, _, _, _, _, .same h _, _, ha => h.declarators file ha
  | _, _, _, _, _, above', .wrapped _ h hwraps hadds, hn, ha => by
    obtain ⟨wrappers, hall, -, hdeclared⟩ := Site.exists_wrappers hwraps
    rw [hdeclared file above']
    exact h.declarators file (ha.append ⟨_, _, _, hn, hadds⟩ hall)

theorem RestyledParts.declarators (file : String) : ∀ {k parts parts' n above above'},
    RestyledParts σ k parts parts' → n.kind? = some k → Around σ (n :: above) above' →
    List.Forall₂ (Site.Restyled σ)
      ((Site.walkAllFrom file (n :: above) parts).filter (·.hasKind .variableDeclarator))
      ((Site.walkAllFrom file above' parts').filter (·.hasKind .variableDeclarator))
  | _, _, _, _, _, _, .nil, _, _ => .nil
  | _, _, _, _, _, _, .cons _ hpart hrest, hn, ha => by
    rw [Site.walkAllFrom, Site.walkAllFrom, List.filter_append, List.filter_append]
    exact List.rel_append (hpart.declarators file hn ha) (hrest.declarators file hn ha)
  | _, _, _, _, _, _, .comment hrest, hn, ha => hrest.declarators file hn ha
  | _, _, _, _, _, _, .comment' hrest, hn, ha => hrest.declarators file hn ha

end

mutual

/-- Behind `export` and `declare` stands the same statement. -/
theorem Restyled.declaring : ∀ {n n' above above'}, Restyled σ n n' → Around σ above above' →
    Option.Rel (RestyledIn σ) (Site.declaring above n) (Site.declaring above' n')
  | _, _, _, _, .token, _ => .none
  | _, _, _, _, .leaf, ha => .some ⟨ha, .leaf⟩
  | _, _, above, above', @Restyled.tree _ k r r' parts parts' hparts hkeeps, ha => by
    have hnode : Restyled σ (.tree k r parts) (.tree k r' parts') := .tree hparts hkeeps
    rw [Site.declaring, Site.declaring]
    split
    · next hk =>
      have hplain : ∀ part : Node, part.mayWrap k = false := by
        rcases (by simpa using hk : k = .exportStatement ∨ k = .ambientDeclaration) with rfl | rfl <;>
          exact Node.mayWrap_eq_false rfl
      dsimp only
      rw [show parts.any _ = parts'.any _ from hparts.aligned.any_role .declaration]
      split
      · exact hparts.declaringInRole hplain (.cons hnode ha)
      · exact hparts.declaringFirst hplain (.cons hnode ha)
    · exact .some ⟨ha, hnode⟩

theorem RestyledPart.declaring : ∀ {k part part' above above'}, RestyledPart σ k part part' →
    part.mayWrap k = false → Around σ above above' →
    Option.Rel (RestyledIn σ) (Site.declaring above part) (Site.declaring above' part')
  | _, _, _, _, _, .same h _, _, ha => h.declaring ha
  | _, _, _, _, _, .wrapped hwrap .., hplain, _ => nomatch hplain.symm.trans hwrap

theorem RestyledParts.declaringInRole : ∀ {k parts parts' above above'},
    RestyledParts σ k parts parts' → (∀ part : Node, part.mayWrap k = false) → Around σ above above' →
    Option.Rel (RestyledIn σ) (Site.declaringInRole above parts) (Site.declaringInRole above' parts')
  | _, _, _, _, _, .nil, _, _ => .none
  | _, _, _, _, _, .cons hrole hpart hrest, hplain, ha => by
    rw [Site.declaringInRole, Site.declaringInRole, hrole]
    split
    · exact hpart.declaring (hplain _) ha
    · exact hrest.declaringInRole hplain ha
  | _, _, _, _, _, .comment hrest, hplain, ha => hrest.declaringInRole hplain ha
  | _, _, _, _, _, .comment' hrest, hplain, ha => hrest.declaringInRole hplain ha

theorem RestyledParts.declaringFirst : ∀ {k parts parts' above above'},
    RestyledParts σ k parts parts' → (∀ part : Node, part.mayWrap k = false) → Around σ above above' →
    Option.Rel (RestyledIn σ) (Site.declaringFirst above parts) (Site.declaringFirst above' parts')
  | _, _, _, _, _, .nil, _, _ => .none
  | _, _, _, _, _, .cons _ hpart hrest, hplain, ha => by
    rw [Site.declaringFirst, Site.declaringFirst, (hpart.restyled (hplain _)).kind_eq]
    split
    · exact hpart.declaring (hplain _) ha
    · exact hrest.declaringFirst hplain ha
  | _, _, _, _, _, .comment hrest, hplain, ha => hrest.declaringFirst hplain ha
  | _, _, _, _, _, .comment' hrest, hplain, ha => hrest.declaringFirst hplain ha

end

/-! ### Restyled sites -/

/-- The enclosing nodes of a restyled site. -/
inductive Enclosing (σ : Style) : List Site → List Site → Prop where
  | nil : Enclosing σ [] []
  | cons {s s' : Site} {rest rest' : List Site} : s.Restyled σ s' → Enclosing σ rest rest' →
    Enclosing σ (s :: rest) (s' :: rest')
  | added {s wrapper : Site} {rest rest' : List Site} : wrapper.kind?.any Kind.isWrapper = true →
    Enclosing σ (s :: rest) rest' → Enclosing σ (s :: rest) (wrapper :: rest')

namespace Site.Restyled

variable {s s' : Site}

theorem kind_eq (h : s.Restyled σ s') : s.kind? = s'.kind? := h.node.kind_eq

theorem hasKind_eq (h : s.Restyled σ s') (k : Kind) : s.hasKind k = s'.hasKind k :=
  h.node.hasKind_eq k

theorem unwrap (h : s.Restyled σ s') : s.unwrap.Restyled σ s'.unwrap :=
  have hcore := h.node.core h.around
  ⟨h.file, hcore.around, hcore.node⟩

theorem inside (h : s.Restyled σ s') {part part' : Node} (hpart : Syntax.Restyled σ part part') :
    (s.inside part).Restyled σ (s'.inside part') := ⟨h.file, .cons h.node h.around, hpart⟩

theorem inside_unwrap (h : s.Restyled σ s') (hk : s.kind? = some k) {part part' : Node}
    (hpart : RestyledPart σ k part part') :
    (s.inside part).unwrap.Restyled σ (s'.inside part').unwrap :=
  have hcore := hpart.core hk (.cons h.node h.around)
  ⟨h.file, hcore.around, hcore.node⟩

/-- A part with its role, in a node of a known kind. -/
theorem partOf (h : s.Restyled σ s') (hk : s.kind? = some k) (r : Role) :
    Option.Rel (fun part part' => part.role? = some r ∧ RestyledPart σ k part part')
      (s.node.part? r) (s'.node.part? r) := (h.node.aligned hk).aligned.find r

theorem part (h : s.Restyled σ s') (r : Role) :
    Option.Rel (fun t t' => t.unwrap.Restyled σ t'.unwrap) (s.part? r) (s'.part? r) := by
  cases hk : s.kind? with
  | some k => exact option_rel_map (h.partOf hk r) fun _ _ hpart => h.inside_unwrap hk hpart.2
  | none =>
    obtain ⟨file, above, node⟩ := s
    obtain ⟨file', above', node'⟩ := s'
    cases h.node with
    | token => exact .none
    | leaf => cases hk
    | tree => cases hk

/-- A part in a role that takes no wrappers. -/
theorem plainPart (h : s.Restyled σ s') {r : Role} (hr : ∀ k, s.kind? = some k → r ∉ k.operandRoles) :
    Option.Rel (Site.Restyled σ) (s.part? r) (s'.part? r) := by
  cases hk : s.kind? with
  | some k =>
    exact option_rel_map (h.partOf hk r) fun _ _ hpart =>
      h.inside (hpart.2.restyled (Node.mayWrap_of_role hpart.1 (hr k hk)))
  | none =>
    obtain ⟨file, above, node⟩ := s
    obtain ⟨file', above', node'⟩ := s'
    cases h.node with
    | token => exact .none
    | leaf => cases hk
    | tree => cases hk

/-- A part that is read as it is spelled. -/
theorem spelledPart (h : s.Restyled σ s') (hk : s.kind? = some k) {r : Role}
    (hr : r ∉ k.operandRoles)
    (hspelling : ∀ part : Node, part.role? = some r → part.isSpelling k = true) :
    Option.Rel (fun t t' => t.Restyled σ t' ∧ t.text = t'.text) (s.part? r) (s'.part? r) :=
  option_rel_map (h.partOf hk r) fun part part' hpart => by
    obtain ⟨hrole, hpart⟩ := hpart
    cases hpart with
    | same hsame htext => exact ⟨h.inside hsame, htext (hspelling part hrole)⟩
    | wrapped hwrap => cases (Node.mayWrap_of_role hrole hr).symm.trans hwrap

theorem named_eq_nil (h : s.Restyled σ s') (hk : s.kind? = none) : s.named = [] ∧ s'.named = [] := by
  obtain ⟨file, above, node⟩ := s
  obtain ⟨file', above', node'⟩ := s'
  cases h.node with
  | token => exact ⟨rfl, rfl⟩
  | leaf => cases hk
  | tree => cases hk

theorem elements (h : s.Restyled σ s') :
    List.Forall₂ (fun t t' => t.unwrap.Restyled σ t'.unwrap) s.named s'.named := by
  cases hk : s.kind? with
  | some k =>
    have hnamed := (h.node.aligned hk).aligned.named fun _ _ hpart => hpart.isNamedPart_eq
    exact List.forall₂_map_left_iff.2 (List.forall₂_map_right_iff.2
      (hnamed.imp fun _ _ hpart => h.inside_unwrap hk hpart))
  | none =>
    rw [(h.named_eq_nil hk).1, (h.named_eq_nil hk).2]
    exact .nil

theorem named (h : s.Restyled σ s') (hk : s.kind? = some k) (hplain : k.takesNoWrappers = true) :
    List.Forall₂ (Site.Restyled σ) s.named s'.named := by
  have hnamed := (h.node.aligned hk).aligned.named fun _ _ hpart => hpart.isNamedPart_eq
  exact List.forall₂_map_left_iff.2 (List.forall₂_map_right_iff.2
    (hnamed.imp fun part _ hpart => h.inside (hpart.restyled (Node.mayWrap_eq_false hplain part))))

theorem enclosing (h : s.Restyled σ s') : Enclosing σ s.enclosing s'.enclosing := by
  have hgo {above above' : List Node} (ha : Around σ above above') :
      Enclosing σ (Site.enclosing.go s above) (Site.enclosing.go s' above') := by
    induction ha with
    | nil => exact .nil
    | cons hn ha ih => exact .cons ⟨h.file, ha, hn⟩ ih
    | added _ hw _ ih => exact .added hw ih
  exact hgo h.around

end Site.Restyled

theorem Enclosing.getLast {scopes scopes' : List Site} (h : Enclosing σ scopes scopes') :
    Option.Rel (Site.Restyled σ) scopes.getLast? scopes'.getLast? := by
  induction h with
  | nil => exact .none
  | cons hs _ ih =>
    rw [List.getLast?_cons, List.getLast?_cons]
    rcases option_rel_cases ih with ⟨hnone, hnone'⟩ | ⟨t, t', hsome, hsome', ht⟩
    · rw [hnone, hnone']
      exact .some hs
    · rw [hsome, hsome']
      exact .some ht
  | added _ _ ih =>
    rw [List.getLast?_cons] at ih ⊢
    rw [List.getLast?_cons]
    rcases option_rel_cases ih with ⟨hnone, -⟩ | ⟨t, t', hsome, hsome', ht⟩
    · cases hnone
    · rw [hsome, hsome']
      exact .some ht

theorem Site.Restyled.program {s s' : Site} (h : s.Restyled σ s') : s.program.Restyled σ s'.program := by
  unfold Site.program
  rcases option_rel_cases h.enclosing.getLast with ⟨hnone, hnone'⟩ | ⟨t, t', hsome, hsome', ht⟩
  · rw [hnone, hnone']
    exact h
  · rw [hsome, hsome']
    exact ht

end Syntax
end SettingsHarvest
