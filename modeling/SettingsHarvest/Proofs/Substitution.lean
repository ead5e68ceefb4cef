import Mathlib.Data.List.Find
import SettingsHarvest.Proofs.LookupTables
import SettingsHarvest.Proofs.Places
import SettingsHarvest.Proofs.RestyledScopes

/-! An expression in place of a name.

`θ.apply n` is the tree `n` with an expression, in parentheses, wherever a name is used. Where the name
stands for a member of an object literal by itself, the member is written out; keys, members of accesses
and operators stay as they are spelled, and so does a function that has a variable of that name. Nodes
keep their kinds and roles, so such a tree is read part by part like the one it was made from
(`Substituted.unwrap`, `Substituted.part`, `Substituted.memberValue`); only a use of the name leads to the
expression instead. -/
namespace SettingsHarvest
open Syntax

namespace Syntax

/-- An expression to put in place of a name. -/
structure Substitution where
  name : String
  expression : Node

/-- Forms that are read part by part. -/
def Kind.isCompound : Kind → Bool
  | .object | .pair | .memberExpression | .subscriptExpression | .binaryExpression
  | .unaryExpression => true
  | _ => false

namespace Node

/-- A name used as an expression. -/
def isUseOf (x : String) (n : Node) : Bool :=
  (n.hasKind .identifier || n.hasKind .shorthandPropertyIdentifier) && n.text == x

/-- A name that stands for a member by itself. -/
def isAlone (x : String) (member : Node) : Bool :=
  member.hasKind .shorthandPropertyIdentifier && member.text == x

/-- Parts that are spelled and not evaluated: members of accesses, operators, and keys. -/
def isSpelledIn (k : Kind) (part : Node) : Bool :=
  match k, part.role? with
  | .memberExpression, some .property => true
  | .binaryExpression, some .operator | .unaryExpression, some .operator => true
  | .pair, some .key => !part.hasKind .computedPropertyName
  | .pair, some .name => true
  | _, _ => false

theorem isSpelledIn_name {part : Node} (h : part.role? = some .name) :
    part.isSpelledIn .pair = true := by
  unfold isSpelledIn
  rw [h]

theorem isSpelledIn_key {part : Node} (h : part.role? = some .key) :
    part.isSpelledIn .pair = !part.hasKind .computedPropertyName := by
  unfold isSpelledIn
  rw [h]

/-- A function that has a parameter or variable of a name. -/
def hides (x : String) (n : Node) : Bool :=
  n.kind?.any Kind.isFunction && (n.takes x || n.walk.any fun m =>
    m.hasKind .variableDeclarator && (m.part? .name).any (·.text == x))

/-- What holds no use of a name: words, texts, and functions with a variable of that name. -/
def isOpaque (x : String) (n : Node) : Bool := n.isWord || n.hides x

/-- The white space in front of a leaf. -/
def blank : Node → String
  | token _ b _ => b
  | leaf _ _ b _ => b
  | tree .. => ""

/-- A compound is no name, and no word, text or function either. -/
theorem isCompound_facts {n : Node} {k : Kind} (hk : n.kind? = some k) (hc : k.isCompound = true)
    (x : String) : n.isUseOf x = false ∧ n.isOpaque x = false ∧ n.isScope = false := by
  unfold isUseOf isOpaque isWord hides isScope hasKind
  rw [hk]
  cases k <;> first | exact ⟨rfl, rfl, rfl⟩ | cases hc

theorem role_of_part? {n part : Node} {r : Role} (h : n.part? r = some part) : part.role? = some r := by
  have hrole := List.find?_some h
  exact eq_of_beq hrole

def inParentheses (r : Option Role) (b : String) (e : Node) : Node :=
  .tree .parenthesizedExpression r [.token none b "(", e, .token none "" ")"]

end Node

namespace Substitution

variable {θ : Substitution} {n : Node} {k : Kind}

/-- The pair that a name alone stands for in an object literal. -/
def writtenOut (θ : Substitution) (member : Node) : Node :=
  .tree .pair member.role? [.leaf .propertyIdentifier (some .key) member.blank θ.name,
    .token none "" ":", Node.inParentheses (some .value) " " θ.expression]

mutual

/-- A tree with the expression in place of the name. -/
def apply (θ : Substitution) : Node → Node
  | .token r b t => .token r b t
  | .leaf k r b t =>
    if (Node.leaf k r b t).isUseOf θ.name then Node.inParentheses r b θ.expression else .leaf k r b t
  | .tree k r parts =>
    if (Node.tree k r parts).isUseOf θ.name then Node.inParentheses r "" θ.expression
    else if (Node.tree k r parts).isOpaque θ.name then .tree k r parts
    else .tree k r (θ.applyAll k parts)

/-- The same for the parts of a node of some kind. -/
def applyAll (θ : Substitution) (k : Kind) : List Node → List Node
  | [] => []
  | part :: rest =>
    (if part.isSpelledIn k then part
      else if k == .object && part.hasKind .shorthandPropertyIdentifier && part.isUseOf θ.name then
        θ.writtenOut part
      else θ.apply part) :: θ.applyAll k rest

end

/-- A part of a node of some kind. -/
def applyPart (θ : Substitution) (k : Kind) (part : Node) : Node :=
  if part.isSpelledIn k then part
  else if k == .object && part.hasKind .shorthandPropertyIdentifier && part.isUseOf θ.name then
    θ.writtenOut part
  else θ.apply part

theorem applyAll_eq (parts : List Node) : θ.applyAll k parts = parts.map (θ.applyPart k) := by
  induction parts with
  | nil => rfl
  | cons part rest ih => rw [applyAll, ih]; rfl

/-! ### What stays -/

theorem apply_use (h : n.isUseOf θ.name = true) :
    ∃ b, θ.apply n = Node.inParentheses n.role? b θ.expression := by
  cases n with
  | token r b t => cases h
  | leaf k r b t => exact ⟨b, by rw [apply, if_pos h]; rfl⟩
  | tree k r parts => exact ⟨"", by rw [apply, if_pos h]; rfl⟩

theorem apply_of_isOpaque (h : n.isUseOf θ.name = false) (hisOpaque : n.isOpaque θ.name = true) :
    θ.apply n = n := by
  cases n with
  | token r b t => rfl
  | leaf k r b t => rw [apply, h]; rfl
  | tree k r parts => rw [apply, h, hisOpaque]; rfl

theorem apply_leaf {r : Option Role} {b t : String} (h : (Node.leaf k r b t).isUseOf θ.name = false) :
    θ.apply (.leaf k r b t) = .leaf k r b t := by rw [apply, h]; rfl

theorem apply_tree {r : Option Role} {parts : List Node}
    (h : (Node.tree k r parts).isUseOf θ.name = false)
    (hopen : (Node.tree k r parts).isOpaque θ.name = false) :
    θ.apply (.tree k r parts) = .tree k r (parts.map (θ.applyPart k)) := by
  rw [apply, h, hopen, applyAll_eq]
  rfl

theorem apply_role (n : Node) : (θ.apply n).role? = n.role? := by
  cases huse : n.isUseOf θ.name with
  | true =>
    obtain ⟨b, hb⟩ := apply_use huse
    rw [hb]
    rfl
  | false =>
    cases hisOpaque : n.isOpaque θ.name with
    | true => rw [apply_of_isOpaque huse hisOpaque]
    | false =>
      cases n with
      | token r b t => rfl
      | leaf k r b t => rw [apply_leaf huse]
      | tree k r parts => rw [apply_tree huse hisOpaque]; rfl

theorem apply_kind (huse : n.isUseOf θ.name = false) : (θ.apply n).kind? = n.kind? := by
  cases hisOpaque : n.isOpaque θ.name with
  | true => rw [apply_of_isOpaque huse hisOpaque]
  | false =>
    cases n with
    | token r b t => rfl
    | leaf k r b t => rw [apply_leaf huse]
    | tree k r parts => rw [apply_tree huse hisOpaque]; rfl

theorem apply_isNamedPart (n : Node) : (θ.apply n).isNamedPart = n.isNamedPart := by
  cases huse : n.isUseOf θ.name with
  | true =>
    obtain ⟨b, hb⟩ := apply_use huse
    rw [hb]
    simp only [Node.isUseOf, Bool.and_eq_true, Bool.or_eq_true, Node.hasKind, beq_iff_eq] at huse
    unfold Node.isNamedPart
    rcases huse.1 with hk | hk <;> rw [hk] <;> rfl
  | false => rw [Node.isNamedPart, Node.isNamedPart, apply_kind huse]

theorem applyPart_role (part : Node) : (θ.applyPart k part).role? = part.role? := by
  unfold applyPart
  split
  · rfl
  · split
    · rfl
    · exact apply_role part

theorem applyPart_of_ne (hk : k ≠ .object) {part : Node} (hspelled : part.isSpelledIn k = false) :
    θ.applyPart k part = θ.apply part := by
  have hobject : (k == Kind.object) = false := beq_eq_false_iff_ne.2 hk
  rw [applyPart, hspelled, hobject]
  rfl

/-- The parts of a compound. -/
theorem parts_apply (hk : n.kind? = some k) (hc : k.isCompound = true) :
    (θ.apply n).parts = n.parts.map (θ.applyPart k) := by
  obtain ⟨huse, hopen, -⟩ := Node.isCompound_facts hk hc θ.name
  cases n with
  | token r b t => cases hk
  | leaf k' r b t => rw [apply_leaf huse]; rfl
  | tree k' r parts =>
    obtain rfl : k' = k := Option.some.inj hk
    rw [apply_tree huse hopen]
    rfl

/-- The part of a compound in a role. -/
theorem part?_apply (hk : n.kind? = some k) (hc : k.isCompound = true) (role : Role) :
    (θ.apply n).part? role = (n.part? role).map (θ.applyPart k) := by
  rw [Node.part?, Node.part?, parts_apply hk hc, List.find?_map]
  congr 1
  exact List.find?_congr fun part _ => by rw [Function.comp, applyPart_role]

/-! ### Nodes without uses -/

mutual

/-- Where the name is not used, nothing is put in its place. -/
theorem apply_eq_self (file : String) : ∀ (above : List Node) (n : Node),
    (∀ t ∈ Site.walkFrom file above n, t.isNameUse = true → t.text ≠ θ.name) → θ.apply n = n
  | _, .token .., _ => rfl
  | above, .leaf k r b t, h => by
    refine apply_leaf (Bool.not_eq_true _ ▸ fun huse => ?_)
    obtain ⟨hkind, htext⟩ := Bool.and_eq_true_iff.1 huse
    exact h ⟨file, above, .leaf k r b t⟩ List.mem_cons_self hkind (eq_of_beq htext)
  | above, .tree k r parts, h => by
    have huse : (Node.tree k r parts).isUseOf θ.name = false := by
      refine Bool.not_eq_true _ ▸ fun huse => ?_
      obtain ⟨hkind, htext⟩ := Bool.and_eq_true_iff.1 huse
      exact h ⟨file, above, .tree k r parts⟩ List.mem_cons_self hkind (eq_of_beq htext)
    cases hisOpaque : (Node.tree k r parts).isOpaque θ.name with
    | true => exact apply_of_isOpaque huse hisOpaque
    | false =>
      rw [apply, huse, hisOpaque, applyAll_eq_self file k (.tree k r parts :: above) parts
        fun t ht => h t (List.mem_cons_of_mem _ ht)]
      rfl

theorem applyAll_eq_self (file : String) (k : Kind) (above : List Node) : ∀ parts : List Node,
    (∀ t ∈ Site.walkAllFrom file above parts, t.isNameUse = true → t.text ≠ θ.name) →
      θ.applyAll k parts = parts
  | [], _ => rfl
  | part :: rest, h => by
    have hpart : ∀ t ∈ Site.walkFrom file above part, t.isNameUse = true → t.text ≠ θ.name :=
      fun t ht => h t (List.mem_append_left _ ht)
    have huse : part.isUseOf θ.name = false := by
      refine Bool.not_eq_true _ ▸ fun huse => ?_
      obtain ⟨hkind, htext⟩ := Bool.and_eq_true_iff.1 huse
      exact hpart ⟨file, above, part⟩ (Site.mem_walk_self _) hkind (eq_of_beq htext)
    rw [applyAll, huse, Bool.and_false, apply_eq_self file above part hpart,
      applyAll_eq_self file k above rest fun t ht => h t (List.mem_append_right _ ht)]
    split <;> rfl

end

/-! ### Behind wrappers -/

/-- An expression without wrappers, and what is in its place. -/
inductive Stands (θ : Substitution) (n n' : Node) : Prop where
  | use : n.isUseOf θ.name = true → n' = (Site.core [] θ.expression).2 → Stands θ n n'
  | other : n.isUseOf θ.name = false → n' = θ.apply n → Stands θ n n'

theorem not_isUseOf_wrapper {r : Option Role} {parts : List Node} (hk : k.isWrapper = true) :
    (Node.tree k r parts).isUseOf θ.name = false := by
  cases k <;> first | rfl | cases hk

theorem not_isOpaque_wrapper {r : Option Role} {parts : List Node} (hk : k.isWrapper = true) :
    (Node.tree k r parts).isOpaque θ.name = false := by
  cases k <;> first | rfl | cases hk

theorem applyPart_wrapper (hk : k.isWrapper = true) (part : Node) :
    θ.applyPart k part = θ.apply part := by
  refine applyPart_of_ne (by rintro rfl; cases hk) ?_
  cases k <;> first | rfl | cases hk

/-- What is put in parentheses is found behind them. -/
theorem core_inParentheses (hnamed : θ.expression.isNamedPart = true) (above : List Node)
    (r : Option Role) (b : String) :
    (Site.core above (Node.inParentheses r b θ.expression)).2 = (Site.core [] θ.expression).2 := by
  rw [Node.inParentheses, Site.core, if_pos (show Kind.isWrapper .parenthesizedExpression = true from rfl)]
  dsimp only
  rw [if_neg (by decide), Site.coreOfFirst, if_neg nofun, Site.coreOfFirst, if_pos hnamed,
    Option.getD_some]
  exact Site.core_snd _ _ _

mutual

theorem stands_core (hnamed : θ.expression.isNamedPart = true) (above above' : List Node) :
    ∀ n : Node, Stands θ (Site.core above n).2 (Site.core above' (θ.apply n)).2
  | .token r b t => .other rfl rfl
  | .leaf k r b t => by
    cases huse : (Node.leaf k r b t).isUseOf θ.name with
    | true =>
      obtain ⟨blank, hput⟩ := apply_use huse
      exact .use huse (by rw [hput]; exact core_inParentheses hnamed _ _ _)
    | false => exact .other huse (by rw [apply_leaf huse]; exact (apply_leaf huse).symm)
  | .tree k r parts => by
    cases huse : (Node.tree k r parts).isUseOf θ.name with
    | true =>
      obtain ⟨blank, hput⟩ := apply_use huse
      have hplain : k.isWrapper = false :=
        Bool.not_eq_true _ ▸ fun hk => nomatch huse.symm.trans (not_isUseOf_wrapper hk)
      rw [Site.core, hplain, hput]
      exact .use huse (core_inParentheses hnamed _ _ _)
    | false =>
      cases hk : k.isWrapper with
      | false =>
        have hself : (Site.core above (.tree k r parts)).2 = .tree k r parts := by
          rw [Site.core, hk]
          rfl
        have hself' : (Site.core above' (θ.apply (.tree k r parts))).2 = θ.apply (.tree k r parts) := by
          rw [apply, huse]
          split
          · contradiction
          · split <;> (rw [Site.core, hk]; rfl)
        rw [hself, hself']
        exact .other huse rfl
      | true =>
        have hput : θ.apply (.tree k r parts) = .tree k r (θ.applyAll k parts) := by
          rw [apply_tree huse (not_isOpaque_wrapper hk), applyAll_eq]
        have hfound : Option.Rel (fun found found' => Stands θ found.2 found'.2)
            (if k == .typeAssertion then Site.coreOfLast (.tree k r parts :: above) parts
              else Site.coreOfFirst (.tree k r parts :: above) parts)
            (if k == .typeAssertion then
                Site.coreOfLast (.tree k r (θ.applyAll k parts) :: above') (θ.applyAll k parts)
              else Site.coreOfFirst (.tree k r (θ.applyAll k parts) :: above') (θ.applyAll k parts)) := by
          split
          · exact stands_coreOfLast hnamed hk _ _ parts
          · exact stands_coreOfFirst hnamed hk _ _ parts
        rw [hput, Site.core, Site.core, if_pos hk, if_pos hk]
        dsimp only
        generalize (if k == .typeAssertion then Site.coreOfLast (.tree k r parts :: above) parts
          else Site.coreOfFirst (.tree k r parts :: above) parts) = found at hfound
        generalize (if k == .typeAssertion then
            Site.coreOfLast (.tree k r (θ.applyAll k parts) :: above') (θ.applyAll k parts)
          else Site.coreOfFirst (.tree k r (θ.applyAll k parts) :: above') (θ.applyAll k parts)) =
          found' at hfound
        cases hfound with
        | none => exact .other huse hput.symm
        | some h => exact h
termination_by structural n => n

theorem stands_coreOfFirst (hnamed : θ.expression.isNamedPart = true) {wrapper : Kind}
    (hk : wrapper.isWrapper = true) (above above' : List Node) : ∀ parts : List Node,
    Option.Rel (fun found found' => Stands θ found.2 found'.2) (Site.coreOfFirst above parts)
      (Site.coreOfFirst above' (θ.applyAll wrapper parts))
  | [] => .none
  | part :: rest => by
    have hpart : θ.applyAll wrapper (part :: rest) = θ.apply part :: θ.applyAll wrapper rest := by
      rw [applyAll_eq, applyAll_eq, List.map_cons, applyPart_wrapper hk]
    rw [hpart, Site.coreOfFirst, Site.coreOfFirst, apply_isNamedPart]
    split
    · exact .some (stands_core hnamed above above' part)
    · exact stands_coreOfFirst hnamed hk above above' rest
termination_by structural parts => parts

theorem stands_coreOfLast (hnamed : θ.expression.isNamedPart = true) {wrapper : Kind}
    (hk : wrapper.isWrapper = true) (above above' : List Node) : ∀ parts : List Node,
    Option.Rel (fun found found' => Stands θ found.2 found'.2) (Site.coreOfLast above parts)
      (Site.coreOfLast above' (θ.applyAll wrapper parts))
  | [] => .none
  | part :: rest => by
    have hpart : θ.applyAll wrapper (part :: rest) = θ.apply part :: θ.applyAll wrapper rest := by
      rw [applyAll_eq, applyAll_eq, List.map_cons, applyPart_wrapper hk]
    rw [hpart, Site.coreOfLast, Site.coreOfLast, apply_isNamedPart]
    rcases option_rel_cases (stands_coreOfLast hnamed hk above above' rest) with
      ⟨hnone, hnone'⟩ | ⟨found, found', hsome, hsome', hfound⟩
    · rw [hnone, hnone']
      dsimp only
      split
      · exact .some (stands_core hnamed above above' part)
      · exact .none
    · rw [hsome, hsome']
      exact .some hfound
termination_by structural parts => parts

end

end Substitution

/-! ### Sites -/

/-- A site, and the same beside it with the expression in place of the name. -/
structure Site.Substituted (θ : Substitution) (s s' : Site) : Prop where
  node : s'.node = θ.apply s.node
  beside : s.Beside s'

namespace Site.Substituted

variable {θ : Substitution} {s s' : Site} {k : Kind}

/-- Without uses the site is only moved. -/
theorem moved (h : s.Substituted θ s') (hfree : ∀ name, s.Mentions name → name.text ≠ θ.name) :
    s.Moved s' := by
  refine ⟨(h.node.trans ?_).symm, h.beside⟩
  exact Substitution.apply_eq_self s.file s.above s.node fun t ht hname => hfree t ⟨ht, hname⟩

theorem moved_of_isOpaque (h : s.Substituted θ s') (huse : s.node.isUseOf θ.name = false)
    (hisOpaque : s.node.isOpaque θ.name = true) : s.Moved s' :=
  ⟨(h.node.trans (Substitution.apply_of_isOpaque huse hisOpaque)).symm, h.beside⟩

/-- Behind its wrappers is a use of the name, with the expression in its place, or the same again. -/
theorem unwrap (h : s.Substituted θ s') (hnamed : θ.expression.isNamedPart = true) :
    s.unwrap.node.isUseOf θ.name = true ∧ s'.unwrap.node = (core [] θ.expression).2 ∨
      s.unwrap.node.isUseOf θ.name = false ∧ s.unwrap.Substituted θ s'.unwrap := by
  have hstands : Substitution.Stands θ s.unwrap.node s'.unwrap.node := by
    show Substitution.Stands θ (core s.above s.node).2 (core s'.above s'.node).2
    rw [h.node]
    exact Substitution.stands_core hnamed _ _ _
  cases hstands with
  | use huse hnode => exact .inl ⟨huse, hnode⟩
  | other huse hnode =>
    exact .inr ⟨huse, hnode, (Beside.unwrap s).symm.trans (h.beside.trans (Beside.unwrap s'))⟩

theorem kind_eq (h : s.Substituted θ s') (huse : s.node.isUseOf θ.name = false) :
    s.kind? = s'.kind? := by
  rw [kind?, kind?, h.node, Substitution.apply_kind huse]

/-- A part that is read as it is spelled. -/
theorem spelledPart (h : s.Substituted θ s') (hk : s.kind? = some k) (hc : k.isCompound = true) {r : Role}
    (hspelled : ∀ part : Node, part.role? = some r → part.isSpelledIn k = true) :
    (s.part? r).map Site.node = (s'.part? r).map Site.node := by
  rw [part?, part?, h.node, Substitution.part?_apply hk hc]
  cases hpart : s.node.part? r with
  | none => rfl
  | some part =>
    have hrole : part.role? = some r := Node.role_of_part? hpart
    show some part = some (θ.applyPart k part)
    rw [Substitution.applyPart, if_pos (hspelled part hrole)]

/-- A part that is evaluated. -/
theorem part (h : s.Substituted θ s') (hk : s.kind? = some k) (hc : k.isCompound = true)
    (hobject : k ≠ .object) {r : Role}
    (hspelled : ∀ part : Node, part.role? = some r → part.isSpelledIn k = false) :
    Option.Rel (Substituted θ) (s.part? r) (s'.part? r) := by
  rw [part?, part?, h.node, Substitution.part?_apply hk hc]
  cases hpart : s.node.part? r with
  | none => exact .none
  | some part =>
    have hrole : part.role? = some r := Node.role_of_part? hpart
    refine .some ⟨Substitution.applyPart_of_ne hobject (hspelled part hrole), h.beside.inside ?_ ?_ _ _⟩
    · exact (Node.isCompound_facts hk hc θ.name).2.2
    · exact (Node.isCompound_facts ((h.kind_eq (Node.isCompound_facts hk hc θ.name).1).symm.trans hk)
        hc θ.name).2.2

theorem memberKey (h : s.Substituted θ s') (hs : s.hasKind .pair = true) :
    s.memberKey? = s'.memberKey? := by
  have hk : s.kind? = some .pair := hasKind_iff.1 hs
  have hname : s'.node.part? .name = s.node.part? .name := by
    rw [h.node, Substitution.part?_apply hk rfl]
    cases hpart : s.node.part? .name with
    | none => rfl
    | some part =>
      rw [Option.map_some, Substitution.applyPart, Node.isSpelledIn_name (Node.role_of_part? hpart)]
      rfl
  have hkey : s'.node.part? .key = s.node.part? .key ∨ ∃ key key', s.node.part? .key = some key ∧
      s'.node.part? .key = some key' ∧ key.kind? = some .computedPropertyName ∧
      key'.kind? = some .computedPropertyName := by
    rw [h.node, Substitution.part?_apply hk rfl]
    cases hpart : s.node.part? .key with
    | none => exact .inl rfl
    | some part =>
      rw [Option.map_some]
      have hspelled := Node.isSpelledIn_key (Node.role_of_part? hpart)
      cases hcomputed : part.hasKind .computedPropertyName with
      | false =>
        rw [Substitution.applyPart, hspelled, hcomputed]
        exact .inl rfl
      | true =>
        have hkind : part.kind? = some .computedPropertyName := eq_of_beq hcomputed
        have huse : part.isUseOf θ.name = false := by
          rw [Node.isUseOf, Node.hasKind, Node.hasKind, hkind]
          rfl
        refine .inr ⟨part, _, rfl, rfl, hkind, ?_⟩
        rw [Substitution.applyPart_of_ne (by decide) (by rw [hspelled, hcomputed]; rfl),
          Substitution.apply_kind huse, hkind]
  unfold memberKey? part?
  rw [hname]
  rcases hkey with hkey | ⟨key, key', hkey, hkey', hkind, hkind'⟩
  · rw [hkey]
    cases s.node.part? .key <;> cases s.node.part? .name <;> rfl
  · rw [hkey, hkey']
    rw [Option.map_some, Option.map_some, Option.some_or, Option.some_or]
    dsimp only [inside, kind?]
    rw [hkind, hkind']

end Site.Substituted

/-! ### Members of an object literal -/

/-- An expression without wrappers is a use of the name with the expression in its place, or the same
again. -/
inductive Site.Stands (θ : Substitution) (s s' : Site) : Prop where
  | use : s.node.isUseOf θ.name = true → s'.node = (Site.core [] θ.expression).2 → Stands θ s s'
  | other : s.node.isUseOf θ.name = false → s.Substituted θ s' → Stands θ s s'

namespace Substitution

variable {θ : Substitution} {m : Node}

theorem apply_hasKind {k : Kind} (hk : k ≠ .identifier ∧ k ≠ .shorthandPropertyIdentifier ∧
    k ≠ .parenthesizedExpression) (n : Node) : (θ.apply n).hasKind k = n.hasKind k := by
  cases huse : n.isUseOf θ.name with
  | false => rw [Node.hasKind, Node.hasKind, apply_kind huse]
  | true =>
    obtain ⟨b, hb⟩ := apply_use huse
    have hname := (Bool.and_eq_true_iff.1 huse).1
    have hother : n.hasKind k = false := by
      refine Bool.not_eq_true _ ▸ fun hkind => ?_
      simp only [Node.hasKind, Bool.or_eq_true, beq_iff_eq] at hname hkind
      rw [hkind] at hname
      rcases hname with hname | hname
      · exact hk.1 (Option.some.inj hname)
      · exact hk.2.1 (Option.some.inj hname)
    rw [hb, hother]
    exact beq_eq_false_iff_ne.2 fun heq => hk.2.2 (Option.some.inj heq).symm

theorem applyPart_object (h : m.isAlone θ.name = false) :
    θ.applyPart .object m = θ.apply m := by
  have hnot : (m.hasKind .shorthandPropertyIdentifier && m.isUseOf θ.name) = false := by
    rw [Node.isUseOf]
    cases hk : m.hasKind .shorthandPropertyIdentifier with
    | false => rfl
    | true =>
      rw [Node.isAlone, hk, Bool.true_and] at h
      rw [h, Bool.and_false, Bool.and_false]
  rw [applyPart, Bool.and_assoc, hnot, Bool.and_false]
  rfl

theorem applyPart_alone (h : m.isAlone θ.name = true) :
    θ.applyPart .object m = θ.writtenOut m := by
  obtain ⟨hk, htext⟩ := Bool.and_eq_true_iff.1 h
  rw [applyPart, Node.isUseOf, hk, htext, Bool.or_true]
  rfl

theorem applyPart_shorthand (hk : m.hasKind .shorthandPropertyIdentifier = true)
    (h : m.isAlone θ.name = false) : m.isUseOf θ.name = false ∧ θ.apply m = m := by
  have huse : m.isUseOf θ.name = false := by
    rw [Node.isAlone, hk, Bool.true_and] at h
    rw [Node.isUseOf, h, Bool.and_false]
  refine ⟨huse, apply_of_isOpaque huse ?_⟩
  rw [Node.isOpaque, Node.isWord, show m.kind? = some .shorthandPropertyIdentifier from eq_of_beq hk]
  rfl

theorem applyPart_isNamedPart (m : Node) : (θ.applyPart .object m).isNamedPart = m.isNamedPart := by
  cases h : m.isAlone θ.name with
  | false => rw [applyPart_object h, apply_isNamedPart]
  | true =>
    rw [applyPart_alone h, Node.isNamedPart, Node.isNamedPart,
      eq_of_beq (Bool.and_eq_true_iff.1 h).1]
    rfl

/-- The pair that was written out has the name as key, and the expression as value. -/
theorem writtenOut_value (hnamed : θ.expression.isNamedPart = true) (s : Site) (m : Node) :
    (s.inside (θ.writtenOut m)).memberKey? = .ok (some θ.name) ∧
    ∃ v, (s.inside (θ.writtenOut m)).pairValue? = some v ∧
      v.unwrap.node = (Site.core [] θ.expression).2 :=
  ⟨rfl, _, rfl, core_inParentheses hnamed _ _ _⟩

end Substitution

namespace Site.Substituted

variable {θ : Substitution} {s s' : Site} {m : Node} {key : String}

/-- The value of a pair, if it has the key that is asked for. -/
def valueUnder (key : String) (pair : Site) : Attempt (Option Site) := do
  if (← pair.memberKey?) == some key then return pair.pairValue? else return none

theorem named (h : s.Substituted θ s') (hs : s.hasKind .object = true) :
    s'.named = s.node.named.map fun m => s'.inside (θ.applyPart .object m) := by
  rw [Site.named, Node.named, h.node, Substitution.parts_apply (hasKind_iff.1 hs) rfl, List.filter_map,
    List.map_map]
  congr 1
  exact List.filter_congr fun m _ => by rw [Function.comp, Substitution.applyPart_isNamedPart]

/-- A member that is a pair stays one, with the same key and what it had for value. -/
theorem pair (h : s.Substituted θ s') (hs : s.hasKind .object = true) (hm : m.hasKind .pair = true) :
    (s.inside m).Substituted θ (s'.inside (θ.applyPart .object m)) := by
  have hk : s.kind? = some .object := hasKind_iff.1 hs
  have hobject := Node.isCompound_facts hk rfl θ.name
  have hnot : m.isAlone θ.name = false := by
    rw [Node.isAlone, Node.hasKind, eq_of_beq hm]
    rfl
  rw [Substitution.applyPart_object hnot]
  exact ⟨rfl, h.beside.inside hobject.2.2
    (Node.isCompound_facts ((h.kind_eq hobject.1).symm.trans hk) rfl θ.name).2.2 _ _⟩

theorem valueUnder_alike (hnamed : θ.expression.isNamedPart = true) {pair pair' : Site}
    (h : pair.Substituted θ pair') (hs : pair.hasKind .pair = true) (key : String) :
    Parallel (Option.Rel fun v v' => Stands θ v.unwrap v'.unwrap) (valueUnder key pair)
      (valueUnder key pair') := by
  unfold valueUnder
  rw [← h.memberKey hs]
  refine .same_bind _ fun found _ => ?_
  split
  · refine .ok (option_rel_mono (h.part (hasKind_iff.1 hs) rfl (by decide) fun part hrole => ?_)
      fun v v' hv => ?_)
    · unfold Node.isSpelledIn
      rw [hrole]
    · rcases hv.unwrap hnamed with ⟨huse, hnode⟩ | ⟨huse, hv⟩
      · exact .use huse hnode
      · exact .other huse hv
  · exact .ok .none

/-- A name that was written out holds the expression, and nothing under another key. -/
theorem valueUnder_writtenOut (hnamed : θ.expression.isNamedPart = true) (s' : Site) (m : Node) :
    ∃ v, valueUnder θ.name (s'.inside (θ.writtenOut m)) = .ok (some v) ∧
      v.unwrap.node = (core [] θ.expression).2 := by
  obtain ⟨hkey, v, hv, hnode⟩ := Substitution.writtenOut_value hnamed s' m
  refine ⟨v, ?_, hnode⟩
  unfold valueUnder
  rw [hkey, hv]
  show (if (some θ.name == some θ.name) = true then _ else _) = _
  rw [beq_self_eq_true]
  rfl

theorem valueUnder_writtenOut_other (hnamed : θ.expression.isNamedPart = true) (s' : Site) (m : Node)
    {key : String} (hkey : key ≠ θ.name) : valueUnder key (s'.inside (θ.writtenOut m)) = .ok none := by
  have hother : (some θ.name == some key) = false :=
    beq_eq_false_iff_ne.2 fun heq => hkey (Option.some.inj heq).symm
  unfold valueUnder
  rw [(Substitution.writtenOut_value hnamed s' m).1]
  show (if (some θ.name == some key) = true then _ else _) = _
  rw [hother]
  rfl

theorem hasKind_pair (halone : m.isAlone θ.name = false) (s' : Site) :
    (s'.inside (θ.applyPart .object m)).hasKind .pair = m.hasKind .pair := by
  rw [Substitution.applyPart_object halone]
  exact Substitution.apply_hasKind (by decide) m

/-- Without the name among the members, or for another key, pairs answer alike. -/
theorem pairs_alike (hnamed : θ.expression.isNamedPart = true) (h : s.Substituted θ s')
    (hs : s.hasKind .object = true) (key : String) : ∀ members : List Node,
    (key = θ.name → ∀ m ∈ members, m.isAlone θ.name = false) →
    Parallel (Option.Rel fun v v' => Stands θ v.unwrap v'.unwrap)
      (firstSome (valueUnder key) ((members.map s.inside).filter (·.hasKind .pair)))
      (firstSome (valueUnder key)
        ((members.map fun m => s'.inside (θ.applyPart .object m)).filter (·.hasKind .pair)))
  | [], _ => .ok .none
  | m :: rest, hfree => by
    have ih := pairs_alike hnamed h hs key rest fun hkey m hm => hfree hkey m (List.mem_cons_of_mem _ hm)
    rw [List.map_cons, List.map_cons, List.filter_cons, List.filter_cons]
    cases halone : m.isAlone θ.name with
    | true =>
      have hkey : key ≠ θ.name := fun hkey => nomatch halone.symm.trans (hfree hkey m List.mem_cons_self)
      have hnot : (s.inside m).hasKind .pair = false :=
        hasKind_ne (Bool.and_eq_true_iff.1 halone).1 (by decide)
      rw [hnot, if_neg (by decide), Substitution.applyPart_alone halone,
        if_pos (show (s'.inside (θ.writtenOut m)).hasKind .pair = true from rfl), firstSome,
        valueUnder_writtenOut_other hnamed s' m hkey]
      exact ih
    | false =>
      rw [hasKind_pair halone, show (s.inside m).hasKind .pair = m.hasKind .pair from rfl]
      split
      · next hpair =>
        rw [firstSome, firstSome]
        have hvalue := valueUnder_alike hnamed (h.pair hs hpair) hpair key
        generalize valueUnder key (s.inside m) = x at hvalue
        generalize valueUnder key (s'.inside (θ.applyPart .object m)) = x' at hvalue
        cases hvalue with
        | fault => exact .fault
        | ok hv =>
          cases hv with
          | none => exact ih
          | some hv => exact .ok (.some hv)
      · exact ih

/-- Where no pair has the name as key, what was written out for it is found. -/
theorem pairs_written (hnamed : θ.expression.isNamedPart = true) (h : s.Substituted θ s')
    (hs : s.hasKind .object = true) : ∀ members : List Node, (∃ m ∈ members, m.isAlone θ.name = true) →
    firstSome (valueUnder θ.name) ((members.map s.inside).filter (·.hasKind .pair)) = .ok none →
    ∃ v, firstSome (valueUnder θ.name)
        ((members.map fun m => s'.inside (θ.applyPart .object m)).filter (·.hasKind .pair)) =
          .ok (some v) ∧ v.unwrap.node = (core [] θ.expression).2
  | [], hmem, _ => by simp at hmem
  | m :: rest, hmem, hnone => by
    rw [List.map_cons, List.filter_cons] at hnone
    rw [List.map_cons, List.filter_cons]
    cases halone : m.isAlone θ.name with
    | true =>
      obtain ⟨v, hfound, hnode⟩ := valueUnder_writtenOut hnamed s' m
      rw [Substitution.applyPart_alone halone,
        if_pos (show (s'.inside (θ.writtenOut m)).hasKind .pair = true from rfl), firstSome, hfound]
      exact ⟨v, rfl, hnode⟩
    | false =>
      have hrest : ∃ m ∈ rest, m.isAlone θ.name = true := by
        obtain ⟨other, hother, htrue⟩ := hmem
        rcases List.mem_cons.1 hother with rfl | hother
        · cases halone.symm.trans htrue
        · exact ⟨other, hother, htrue⟩
      rw [show (s.inside m).hasKind .pair = m.hasKind .pair from rfl] at hnone
      rw [hasKind_pair halone]
      split
      · next hpair =>
        rw [if_pos hpair, firstSome] at hnone
        have hvalue := valueUnder_alike hnamed (h.pair hs hpair) hpair θ.name
        rw [firstSome]
        generalize valueUnder θ.name (s.inside m) = x at hvalue hnone
        generalize valueUnder θ.name (s'.inside (θ.applyPart .object m)) = x' at hvalue
        cases hvalue with
        | fault => cases hnone
        | ok hv =>
          cases hv with
          | none => exact pairs_written hnamed h hs rest hrest hnone
          | some hv => cases hnone
      · next hpair =>
        rw [if_neg hpair] at hnone
        exact pairs_written hnamed h hs rest hrest hnone

/-- Another name that stands alone stays where it is. -/
theorem alone (h : s.Substituted θ s') (hs : s.hasKind .object = true) (halone : m.isAlone θ.name = false)
    (hkind : m.hasKind .shorthandPropertyIdentifier = true) : Stands θ (s.inside m).unwrap
      (s'.inside (θ.applyPart .object m)).unwrap := by
  obtain ⟨huse, hput⟩ := Substitution.applyPart_shorthand hkind halone
  have hk : s.kind? = some .object := hasKind_iff.1 hs
  have hobject := Node.isCompound_facts hk rfl θ.name
  rw [Substitution.applyPart_object halone, hput, unwrap_eq_self (s := s.inside m) hkind rfl,
    unwrap_eq_self (s := s'.inside m) hkind rfl]
  exact .other huse ⟨hput.symm, h.beside.inside hobject.2.2
    (Node.isCompound_facts ((h.kind_eq hobject.1).symm.trans hk) rfl θ.name).2.2 _ _⟩

theorem isShorthand_eq (halone : m.isAlone θ.name = false) (key : String) :
    (s.inside m).isShorthand key = (s'.inside (θ.applyPart .object m)).isShorthand key := by
  rw [Substitution.applyPart_object halone]
  cases hkind : m.hasKind .shorthandPropertyIdentifier with
  | true => rw [(Substitution.applyPart_shorthand hkind halone).2]; rfl
  | false =>
    have hkind' : (θ.apply m).hasKind .shorthandPropertyIdentifier = false := by
      cases huse : m.isUseOf θ.name with
      | true =>
        obtain ⟨b, hb⟩ := Substitution.apply_use huse
        rw [hb]
        rfl
      | false => rw [Node.hasKind, Substitution.apply_kind huse]; exact hkind
    rw [isShorthand, isShorthand, show (s.inside m).hasKind _ = _ from hkind,
      show (s'.inside (θ.apply m)).hasKind _ = _ from hkind', Bool.false_and, Bool.false_and]

theorem propertyValue_eq (hs : s.hasKind .object = true) (key : String) :
    s.propertyValue? key = firstSome (valueUnder key) (s.named.filter (·.hasKind .pair)) := by
  rw [propertyValue?, if_pos hs]
  rfl

/-- For another key, and for every one if the name is not among the members, the names that stand alone
are the same. -/
theorem shorthand_alike (h : s.Substituted θ s') (hs : s.hasKind .object = true) {key : String}
    (hfree : key = θ.name → m.isAlone θ.name = false) :
    (s.inside m).isShorthand key = (s'.inside (θ.applyPart .object m)).isShorthand key ∧
      ((s.inside m).isShorthand key = true →
        Stands θ (s.inside m).unwrap (s'.inside (θ.applyPart .object m)).unwrap) := by
  cases halone : m.isAlone θ.name with
  | true =>
    have hkey : key ≠ θ.name := fun hkey => nomatch halone.symm.trans (hfree hkey)
    obtain ⟨hkind, htext⟩ := Bool.and_eq_true_iff.1 halone
    have hnot : (s.inside m).isShorthand key = false := by
      rw [isShorthand, show (s.inside m).text = θ.name from eq_of_beq htext,
        beq_eq_false_iff_ne.2 hkey.symm, Bool.and_false]
    rw [Substitution.applyPart_alone halone, hnot]
    exact ⟨rfl, fun htrue => absurd htrue Bool.false_ne_true⟩
  | false =>
    exact ⟨isShorthand_eq halone key, fun hkey => h.alone hs halone (Bool.and_eq_true_iff.1 hkey).1⟩

/-- **Members.** Under every key stands the same in both object literals, or the expression where the
name stood alone; for that no pair may have the name as key. -/
theorem memberValue (hnamed : θ.expression.isNamedPart = true) (h : s.Substituted θ s')
    (hs : s.hasKind .object = true)
    (halone : (∃ m ∈ s.node.named, m.isAlone θ.name = true) → s.propertyValue? θ.name = .ok none)
    (key : String) : Parallel (Option.Rel fun v v' => Stands θ v.unwrap v'.unwrap)
      (s.memberValue? key) (s'.memberValue? key) := by
  have hs' : s'.hasKind .object = true := by
    rw [hasKind, h.node, Substitution.apply_hasKind (by decide)]
    exact hs
  have hnamed' := h.named hs
  unfold memberValue?
  rw [propertyValue_eq hs, propertyValue_eq hs', hs, hs', if_pos rfl, if_pos rfl, hnamed']
  rw [propertyValue_eq hs] at halone
  by_cases hfree : key = θ.name → ∀ m ∈ s.node.named, m.isAlone θ.name = false
  · refine (pairs_alike hnamed h hs key s.node.named hfree).bind fun v v' hv => ?_
    cases hv with
    | some hv => exact .ok (.some hv)
    | none =>
      have hmembers : List.Forall₂ (fun a a' => a.isShorthand key = a'.isShorthand key ∧
          (a.isShorthand key = true → Stands θ a.unwrap a'.unwrap)) s.named
          (s.node.named.map fun m => s'.inside (θ.applyPart .object m)) := by
        rw [Site.named, List.forall₂_map_left_iff, List.forall₂_map_right_iff, List.forall₂_same]
        exact fun m hm => h.shorthand_alike hs fun hkey => hfree hkey m hm
      rcases option_rel_cases (forall₂_find hmembers fun _ _ ha => ha.1) with
        ⟨hf, hf'⟩ | ⟨a, a', hf, hf', ha⟩
      · rw [hf, hf']
        exact .ok .none
      · rw [hf, hf']
        have hfound := List.find?_some hf
        exact .ok (.some (ha.2 hfound))
  · obtain ⟨rfl, m, hm, halone'⟩ : key = θ.name ∧ ∃ m ∈ s.node.named, m.isAlone θ.name = true := by
      simpa using hfree
    have hnone := halone ⟨m, hm, halone'⟩
    obtain ⟨v, hv, hnode⟩ := pairs_written hnamed h hs s.node.named ⟨m, hm, halone'⟩ hnone
    have hisSome : (s.named.find? (·.isShorthand θ.name)).isSome = true :=
      List.find?_isSome.2 ⟨s.inside m, List.mem_map_of_mem hm, halone'⟩
    obtain ⟨a, ha⟩ := Option.isSome_iff_exists.1 hisSome
    have hfound := List.find?_some ha
    obtain ⟨hkind, htext⟩ := Bool.and_eq_true_iff.1 hfound
    have huse : a.node.isUseOf θ.name = true := by
      rw [Node.isUseOf, show a.node.hasKind .shorthandPropertyIdentifier = true from hkind,
        show (a.node.text == θ.name) = true from htext, Bool.or_true]
      rfl
    rw [hnone, hv, ha]
    exact .ok (.some (.use (by rwa [unwrap_eq_self hkind rfl]) hnode))

end Site.Substituted
end Syntax
end SettingsHarvest
