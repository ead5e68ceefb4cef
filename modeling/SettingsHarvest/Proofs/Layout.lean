import SettingsHarvest.Proofs.ExtractionCorrespondence
import SettingsHarvest.Proofs.Parentheses

/-! Layout.

White space and comments between tokens say nothing: programs that differ only in them have the same
values, choices, evidence and settings (`layout_alike`), apart from three places where a stretch of source
is compared as it stands. The callee of a call is compared with the methods of `Object` and `Array`, a
dotted type by what is behind its last dot, and some texts with whole words: names of enumerations outside
the files, of helpers, and two types of unions. A blank there changes what is read
(`spaced_callee_unread`). -/
namespace SettingsHarvest
open Syntax

namespace Syntax

/-! ### Trees set differently -/

/-- Kinds of nodes that are single words, numerals and quoted texts. -/
def Node.leafKinds : List Kind := .shorthandPropertyIdentifierPattern :: .typeIdentifier :: wordKinds

/-- What holds of nodes made of parts: they are no words, bodies of enumerations hold their members,
pairs are members of objects, and a parameter without parentheses is a name. -/
def Node.isFormed (n : Node) : Bool :=
  n.isRegular && n.placesPairs && !n.kind?.any leafKinds.contains
    && (n.part? .parameter).all (·.hasKind .identifier)

/-- Two nodes made of parts, where the texts that are compared as they stand are read alike. -/
structure Node.LaidOut (compared : String → Prop) (n n' : Node) : Prop where
  formed : n.isFormed = true
  /-- A template without gaps is one token. -/
  template : n.isWord = true → n.text = n'.text
  words : ∀ w, compared w ∨ w = "null" ∨ w = "undefined" → (n.text = w ↔ n'.text = w)
  callee : Option.Rel (fun c c' => Project.builtinShape? c.text = Project.builtinShape? c'.text)
    (n.part? .function) (n'.part? .function)
  dotted : n.hasKind .nestedTypeIdentifier = true → Node.lastSegment n.text = Node.lastSegment n'.text

/-- White space and comments, and nothing else. -/
def layout (compared : String → Prop) : Style := ⟨fun _ _ _ => False, Node.LaidOut compared⟩

section Layout

variable {compared : String → Prop} {k : Kind} {n n' : Node} {parts parts' : List Node}

theorem RestyledPart.laid (h : RestyledPart (layout compared) k n n') : Restyled (layout compared) n n' := by
  cases h with
  | same h => exact h
  | wrapped _ _ _ hadds => exact hadds.elim

/-- Names are spelled alike. -/
theorem Restyled.leafText (h : Restyled (layout compared) n n') (hk : n.kind? = some k)
    (hleaf : k ∈ Node.leafKinds) : n.text = n'.text := by
  cases h with
  | token => rfl
  | leaf => rfl
  | tree _ hkeeps =>
    cases hk
    have hformed := hkeeps.formed
    simp only [Node.isFormed, Bool.and_eq_true, Bool.not_eq_true'] at hformed
    have hnot : Node.leafKinds.contains k = false := hformed.1.2
    rw [List.contains_iff_mem.2 hleaf] at hnot
    cases hnot

/-- A part in a role. -/
theorem Restyled.partLaid (h : Restyled (layout compared) n n') (r : Role) :
    Option.Rel (Restyled (layout compared)) (n.part? r) (n'.part? r) := by
  cases h with
  | token => exact .none
  | leaf => exact .none
  | tree hparts => exact option_rel_mono (hparts.aligned.find r) fun _ _ hpart => hpart.2.laid

theorem Restyled.namedLaid (h : Restyled (layout compared) n n') :
    List.Forall₂ (Restyled (layout compared)) n.named n'.named := by
  cases h with
  | token => exact .nil
  | leaf => exact .nil
  | tree hparts =>
    exact (hparts.aligned.named fun _ _ hpart => hpart.isNamedPart_eq).imp fun _ _ hpart => hpart.laid

/-! ### Parameters -/

/-- Whether a node is a name, mentioned or bound. -/
def Node.isNameOf (name : String) (n : Node) : Bool :=
  (n.hasKind .identifier || n.hasKind .shorthandPropertyIdentifierPattern) && n.text == name

mutual

/-- The same names are mentioned below. -/
theorem Restyled.names_eq (name : String) : ∀ {n n' : Node}, Restyled (layout compared) n n' →
    n.walk.any (Node.isNameOf name) = n'.walk.any (Node.isNameOf name)
  | _, _, .token => rfl
  | _, _, .leaf => rfl
  | _, _, @Restyled.tree _ k r r' parts parts' hparts hkeeps => by
    have hnode : Restyled (layout compared) (.tree k r parts) (.tree k r' parts') := .tree hparts hkeeps
    have hself : (Node.tree k r parts).isNameOf name = (Node.tree k r' parts').isNameOf name := by
      unfold Node.isNameOf
      rw [← hnode.hasKind_eq, ← hnode.hasKind_eq]
      by_cases hk : k ∈ Node.leafKinds
      · rw [hnode.leafText rfl hk]
      · have hidentifier : (Node.tree k r parts).hasKind .identifier = false :=
          beq_eq_false_iff_ne.2 fun heq => hk (by cases heq; decide)
        have hpattern : (Node.tree k r parts).hasKind .shorthandPropertyIdentifierPattern = false :=
          beq_eq_false_iff_ne.2 fun heq => hk (by cases heq; decide)
        rw [hidentifier, hpattern]
        rfl
    rw [Node.walk, Node.walk, List.any_cons, List.any_cons, hself, hparts.names_eq name]

theorem RestyledPart.names_eq (name : String) : ∀ {k : Kind} {n n' : Node},
    RestyledPart (layout compared) k n n' →
    n.walk.any (Node.isNameOf name) = n'.walk.any (Node.isNameOf name)
  | _, _, _, .same h _ => h.names_eq name
  | _, _, _, .wrapped _ _ _ hadds => hadds.elim

theorem RestyledParts.names_eq (name : String) : ∀ {k : Kind} {parts parts' : List Node},
    RestyledParts (layout compared) k parts parts' →
    (Node.walkAll parts).any (Node.isNameOf name) = (Node.walkAll parts').any (Node.isNameOf name)
  | _, _, _, .nil => rfl
  | _, _, _, .cons _ hpart hrest => by
    rw [Node.walkAll, Node.walkAll, List.any_append, List.any_append, hpart.names_eq name,
      hrest.names_eq name]
  | _, _, _, .comment hrest => hrest.names_eq name
  | _, _, _, .comment' hrest => hrest.names_eq name

end

theorem Restyled.takes_eq (h : Restyled (layout compared) n n') (name : String) :
    n.takes name = n'.takes name := by
  unfold Node.takes
  rcases option_rel_cases (h.partLaid .parameter) with ⟨hp, hp'⟩ | ⟨q, q', hp, hp', hq⟩
  · rw [hp, hp']
    dsimp only
    rcases option_rel_cases (h.partLaid .parameters) with ⟨hq, hq'⟩ | ⟨ps, ps', hq, hq', hparameters⟩
    · rw [hq, hq']
    · rw [hq, hq']
      exact hparameters.names_eq name
  · rw [hp, hp']
    have hname : q.hasKind .identifier = true := by
      cases h with
      | token => cases hp
      | leaf => cases hp
      | tree _ hkeeps =>
        have hformed := (Bool.and_eq_true_iff.1 hkeeps.formed).2
        rwa [hp, Option.all_some] at hformed
    dsimp only
    rw [hq.leafText (eq_of_beq hname) (by decide)]

theorem layout_keepsNames : (layout compared).KeepsNames where
  word {n n'} h hn := by
    cases h with
    | token => rfl
    | leaf => rfl
    | tree _ hkeeps => exact hkeeps.template hn
  regular h := by
    cases h with
    | token => rfl
    | leaf => exact Node.isRegular_leaf _ _ _ _
    | tree _ hkeeps =>
      have hformed := hkeeps.formed
      simp only [Node.isFormed, Bool.and_eq_true] at hformed
      exact hformed.1.1.1
  parameters h _ name := h.takes_eq name

/-! ### Types -/

theorem Restyled.words_iff (h : Restyled (layout compared) n n') {w : String}
    (hw : compared w ∨ w = "null" ∨ w = "undefined") : n.text = w ↔ n'.text = w := by
  cases h with
  | token => rfl
  | leaf => rfl
  | tree _ hkeeps => exact hkeeps.words w hw

/-- The name of a type that is no generic one. -/
def Node.simpleTypeName? (n : Node) : Option String :=
  match n.kind? with
  | some .typeIdentifier | some .identifier => some n.text
  | some .nestedTypeIdentifier => some (lastSegment n.text)
  | _ => none

theorem Node.plainTypeName_eq (n : Node) : n.plainTypeName? =
    if n.hasKind .genericType then (n.part? .name).bind simpleTypeName? else n.simpleTypeName? := by
  unfold plainTypeName? hasKind
  split
  · next hkind =>
    rw [hkind]
    rfl
  · next hkind =>
    rw [if_neg (by simpa using hkind)]
    rfl

theorem Restyled.simpleTypeName_eq (h : Restyled (layout compared) n n') :
    n.simpleTypeName? = n'.simpleTypeName? := by
  unfold Node.simpleTypeName?
  rw [← h.kind_eq]
  split
  · next hkind => rw [h.leafText hkind (by decide)]
  · next hkind => rw [h.leafText hkind (by decide)]
  · next hkind =>
    cases h with
    | token => rfl
    | leaf => rfl
    | tree _ hkeeps => rw [hkeeps.dotted (beq_iff_eq.2 hkind)]
  · rfl

theorem Restyled.plainTypeName_eq (h : Restyled (layout compared) n n') :
    n.plainTypeName? = n'.plainTypeName? := by
  rw [Node.plainTypeName_eq, Node.plainTypeName_eq, ← h.hasKind_eq]
  split
  · rcases option_rel_cases (h.partLaid .name) with ⟨hp, hp'⟩ | ⟨q, q', hp, hp', hq⟩
    · rw [hp, hp']
    · rw [hp, hp', Option.bind_some, Option.bind_some, hq.simpleTypeName_eq]
  · exact h.simpleTypeName_eq

theorem Restyled.shapeOfName_eq (h : Restyled (layout compared) n n') :
    n.shapeOfName = n'.shapeOfName := by
  rw [Node.shapeOfName, Node.shapeOfName, h.plainTypeName_eq]

theorem Restyled.shapeOfLiteral_eq (h : Restyled (layout compared) n n') :
    n.shapeOfLiteral = n'.shapeOfLiteral := by
  have hhead : n.named.head?.bind Node.kind? = n'.named.head?.bind Node.kind? := by
    rw [List.head?_eq_getElem?, List.head?_eq_getElem?]
    rcases option_rel_cases (forall₂_getElem h.namedLaid 0) with ⟨hm, hm'⟩ | ⟨m, m', hm, hm', hsame⟩
    · rw [hm, hm']
    · rw [hm, hm', Option.bind_some, Option.bind_some, hsame.kind_eq]
  rw [Node.shapeOfLiteral, Node.shapeOfLiteral, hhead]

/-- What a type made of parts says, given what its parts, its literal and its name say. -/
def Node.shapeOfKind (k : Kind) (first literal name : Option TypeShape)
    (members : List (Option TypeShape)) : Option TypeShape :=
  match k with
  | .typeAscription | .parenthesizedType => first
  | .literalType => literal
  | .arrayType | .tupleType | .readonlyType => some .array
  | .unionType => agreed members
  | _ => name

theorem Node.typeShape_tree (k : Kind) (r : Option Role) (parts : List Node) :
    (tree k r parts).typeShape? = shapeOfKind k (shapeOfFirst parts) (tree k r parts).shapeOfLiteral
      (tree k r parts).shapeOfName (shapesOfMembers parts) := by
  unfold typeShape? shapeOfKind
  rfl

mutual

/-- Types say the same. -/
theorem Restyled.typeShape_eq : ∀ {n n' : Node}, Restyled (layout compared) n n' →
    n.typeShape? = n'.typeShape?
  | _, _, .token => rfl
  | _, _, @Restyled.leaf _ k r r' b b' t => by
    have hname : (Node.leaf k r b t).shapeOfName = (Node.leaf k r' b' t).shapeOfName :=
      (Restyled.leaf : Restyled (layout compared) _ _).shapeOfName_eq
    unfold Node.typeShape?
    rw [hname]
  | _, _, @Restyled.tree _ k r r' parts parts' hparts hkeeps => by
    have hnode : Restyled (layout compared) (.tree k r parts) (.tree k r' parts') := .tree hparts hkeeps
    rw [Node.typeShape_tree, Node.typeShape_tree, hnode.shapeOfName_eq, hnode.shapeOfLiteral_eq,
      hparts.shapeOfFirst_eq, hparts.shapesOfMembers_eq]

theorem RestyledPart.typeShape_eq : ∀ {k : Kind} {n n' : Node},
    RestyledPart (layout compared) k n n' → n.typeShape? = n'.typeShape?
  | _, _, _, .same h _ => h.typeShape_eq
  | _, _, _, .wrapped _ _ _ hadds => hadds.elim

theorem RestyledParts.shapeOfFirst_eq : ∀ {k : Kind} {parts parts' : List Node},
    RestyledParts (layout compared) k parts parts' → Node.shapeOfFirst parts = Node.shapeOfFirst parts'
  | _, _, _, .nil => rfl
  | _, _, _, .cons _ hpart hrest => by
    rw [Node.shapeOfFirst, Node.shapeOfFirst, hpart.isNamedPart_eq, hpart.typeShape_eq,
      hrest.shapeOfFirst_eq]
  | _, _, _, .comment hrest => hrest.shapeOfFirst_eq
  | _, _, _, .comment' hrest => hrest.shapeOfFirst_eq

theorem RestyledParts.shapesOfMembers_eq : ∀ {k : Kind} {parts parts' : List Node},
    RestyledParts (layout compared) k parts parts' →
    Node.shapesOfMembers parts = Node.shapesOfMembers parts'
  | _, _, _, .nil => rfl
  | _, _, _, @RestyledParts.cons _ _ part part' _ _ _ hpart hrest => by
    have hwords : (part.text != "null" && part.text != "undefined") =
        (part'.text != "null" && part'.text != "undefined") := by
      rw [Bool.eq_iff_iff, Bool.and_eq_true, Bool.and_eq_true, bne_iff_ne, bne_iff_ne, bne_iff_ne, bne_iff_ne,
        ne_eq, ne_eq, hpart.laid.words_iff (.inr (.inl rfl)),
        hpart.laid.words_iff (.inr (.inr rfl))]
    rw [Node.shapesOfMembers, Node.shapesOfMembers, hpart.isNamedPart_eq, hpart.typeShape_eq,
      hrest.shapesOfMembers_eq, Bool.and_assoc, Bool.and_assoc, hwords]
  | _, _, _, .comment hrest => hrest.shapesOfMembers_eq
  | _, _, _, .comment' hrest => hrest.shapesOfMembers_eq

end

theorem Restyled.elementOf_eq (h : Restyled (layout compared) n n') : n.elementOf = n'.elementOf := by
  rw [Node.elementOf, Node.elementOf, h.typeShape_eq]

/-- What the first named part of a node says of elements. -/
theorem Restyled.firstElement_eq (h : Restyled (layout compared) n n') :
    n.named.head?.map Node.elementOf = n'.named.head?.map Node.elementOf := by
  rw [List.head?_eq_getElem?, List.head?_eq_getElem?]
  rcases option_rel_cases (forall₂_getElem h.namedLaid 0) with ⟨hm, hm'⟩ | ⟨m, m', hm, hm', hsame⟩
  · rw [hm, hm']
  · rw [hm, hm', Option.map_some, Option.map_some, hsame.elementOf_eq]

/-- What a type made of parts says of elements, given what its parts and its type arguments say. -/
def Node.elementsOfKind (k : Kind) (inside first listed : Option ElementShape) : Option ElementShape :=
  match k with
  | .typeAscription | .readonlyType => inside
  | .arrayType => first
  | .genericType => listed
  | _ => none

/-- What a type says of elements that are given as its argument. -/
def Node.listedElement? (n : Node) : Option ElementShape :=
  if n.plainTypeName? == some "Array" || n.plainTypeName? == some "ReadonlyArray" then
    (n.part? .typeArguments).bind fun a => a.named.head?.map elementOf
  else none

theorem Node.elementShape_tree (k : Kind) (r : Option Role) (parts : List Node) :
    (tree k r parts).elementShape? = elementsOfKind k (elementShapeOfFirst parts)
      ((tree k r parts).named.head?.map elementOf) (tree k r parts).listedElement? := by
  unfold elementShape? elementsOfKind
  rfl

theorem Restyled.listedElement_eq (h : Restyled (layout compared) n n') :
    n.listedElement? = n'.listedElement? := by
  rw [Node.listedElement?, Node.listedElement?, h.plainTypeName_eq]
  rcases option_rel_cases (h.partLaid .typeArguments) with ⟨hp, hp'⟩ | ⟨a, a', hp, hp', ha⟩
  · rw [hp, hp']
  · rw [hp, hp', Option.bind_some, Option.bind_some, ha.firstElement_eq]

mutual

/-- Types of lists say the same of elements. -/
theorem Restyled.elementShape_eq : ∀ {n n' : Node}, Restyled (layout compared) n n' →
    n.elementShape? = n'.elementShape?
  | _, _, .token => rfl
  | _, _, .leaf => rfl
  | _, _, @Restyled.tree _ k r r' parts parts' hparts hkeeps => by
    have hnode : Restyled (layout compared) (.tree k r parts) (.tree k r' parts') := .tree hparts hkeeps
    rw [Node.elementShape_tree, Node.elementShape_tree, hnode.firstElement_eq, hnode.listedElement_eq,
      hparts.elementShapeOfFirst_eq]

theorem RestyledPart.elementShape_eq : ∀ {k : Kind} {n n' : Node},
    RestyledPart (layout compared) k n n' → n.elementShape? = n'.elementShape?
  | _, _, _, .same h _ => h.elementShape_eq
  | _, _, _, .wrapped _ _ _ hadds => hadds.elim

theorem RestyledParts.elementShapeOfFirst_eq : ∀ {k : Kind} {parts parts' : List Node},
    RestyledParts (layout compared) k parts parts' →
    Node.elementShapeOfFirst parts = Node.elementShapeOfFirst parts'
  | _, _, _, .nil => rfl
  | _, _, _, .cons _ hpart hrest => by
    rw [Node.elementShapeOfFirst, Node.elementShapeOfFirst, hpart.isNamedPart_eq, hpart.elementShape_eq,
      hrest.elementShapeOfFirst_eq]
  | _, _, _, .comment hrest => hrest.elementShapeOfFirst_eq
  | _, _, _, .comment' hrest => hrest.elementShapeOfFirst_eq

end

theorem Restyled.assertedType (h : Restyled (layout compared) n n') :
    Option.Rel (Restyled (layout compared)) n.assertedType? n'.assertedType? := by
  rw [Node.assertedType?, Node.assertedType?, ← h.hasKind_eq, ← h.hasKind_eq]
  split
  · exact forall₂_getElem h.namedLaid 1
  · exact .none

/-- In another layout settings are read as they were. -/
theorem layout_readsSettings : (layout compared).ReadsSettings compared where
  names := layout_keepsNames
  adds _ _ _ h := h.elim
  placed {n n'} h part hpart hpair := by
    cases h with
    | token => cases hpart
    | leaf => cases hpart
    | tree _ hkeeps =>
      have hformed := hkeeps.formed
      simp only [Node.isFormed, Bool.and_eq_true] at hformed
      exact Node.placed_of_placesPairs hformed.1.1.2 part hpart hpair
  callee {n n'} h := by
    have hpart := h.partLaid .function
    cases h with
    | token => exact .none
    | leaf => exact .none
    | tree _ hkeeps =>
      have hbuiltin := hkeeps.callee
      rcases option_rel_cases hpart with ⟨hc, hc'⟩ | ⟨c, c', hc, hc', hsame⟩
      · rw [hc, hc']
        exact .none
      · rw [hc, hc'] at hbuiltin ⊢
        cases hbuiltin with
        | some hshape => exact .some ⟨hshape, fun w hw => hsame.words_iff (.inl hw)⟩
  annotation h := by
    rcases option_rel_cases (h.partLaid .type) with ⟨ht, ht'⟩ | ⟨t, t', ht, ht', hsame⟩
    · rw [ht, ht']
    · rw [ht, ht', Option.map_some, Option.map_some, hsame.typeShape_eq]
  assertion h := by
    rcases option_rel_cases h.assertedType with ⟨ht, ht'⟩ | ⟨t, t', ht, ht', hsame⟩
    · rw [ht, ht']
    · rw [ht, ht', Option.map_some, Option.map_some, hsame.typeShape_eq, hsame.elementShape_eq]

end Layout

end Syntax

/-! ### Projects set differently -/

namespace Project

/-- Words that stretches of source are compared with: names of enumerations outside the files, and of
helpers that lookup tables call. -/
def Compares (p : Project) (w : String) : Prop :=
  (∃ members, (w, members) ∈ p.enums) ∨ ∃ l ∈ p.lookups, l.helper = .ok w

/-- Names of enumerations outside the files are found alike. -/
theorem enumMember_laidOut {p p' : Project} (hp : p.Restyled (layout p.Compares) p') {s s' : Site}
    (h : s.Restyled (layout p.Compares) s') (key : String) :
    p.enumMember? s.text key = p'.enumMember? s'.text key := by
  have hlisted {w : String} {members : List (String × Value)} (hmembers : p.enums.lookup w = some members) :
      s.text = w ↔ s'.text = w := h.node.words_iff (.inl (.inl ⟨members, mem_of_lookup hmembers⟩))
  unfold enumMember?
  rw [← hp.enums]
  cases hs : p.enums.lookup s.text with
  | some members => rw [(hlisted hs).1 rfl, hs]
  | none =>
    cases hs' : p.enums.lookup s'.text with
    | none => rfl
    | some members =>
      rw [(hlisted hs').2 rfl, hs'] at hs
      cases hs

end Project

theorem Site.RestyledMember.laid {compared : String → Prop} {s s' : Site}
    (h : Site.RestyledMember (layout compared) s s') : s.Restyled (layout compared) s' := by
  cases h with
  | same h => exact h
  | value h _ hpart => exact h.inside hpart.laid

/-- **Layout does not matter.** In projects that differ in white space and comments only, corresponding
expressions have the same values, or none for a reason of the same kind, and offer the same choices;
calls answer the same shapes and fold to the same defaults; and settings objects show the same evidence and
declare the same settings. What has to be read alike in both is a callee that spells a method of `Object`
or `Array`, what is behind the last dot of a type, and the words that texts are compared with. -/
theorem layout_alike {p p' : Project} (hp : p.Restyled (layout p.Compares) p')
    (hlookups : p.lookups = p'.lookups) {s s' : Site} (h : s.Restyled (layout p.Compares) s') :
    (∀ b b', Bindings.Alike (Site.Restyled (layout p.Compares)) b b' →
      Parallel (Outcome.Alike Eq) (p.evaluate s b) (p'.evaluate s' b')) ∧
    Parallel (Outcome.Alike Eq) (p.matchOptions s) (p'.matchOptions s') ∧
    Parallel Eq (p.callShape? s) (p'.callShape? s') ∧ Parallel Eq (p.foldCall s) (p'.foldCall s') ∧
    (s.hasKind .object = true →
      Parallel (Evidence.Alike (Site.Restyled (layout p.Compares))) (p.inspectDefault s)
        (p'.inspectDefault s') ∧
      ∀ retainHidden, Parallel Eq (p.extract s retainHidden) (p'.extract s' retainHidden)) := by
  have c := hp.settingCorrespondenceOf layout_readsSettings (p.enumMember_laidOut hp) hlookups
    fun l hl name hname => .inr ⟨l, hl, hname⟩
  have hdefault (t t' : Site) (ht : t.Restyled (layout p.Compares) t') (hobject : t.hasKind .object = true) :
      Parallel (Option.Rel (DefaultAlike (Site.Restyled (layout p.Compares)))) (t.memberValue? "default")
        (t'.memberValue? "default") :=
    (memberValue_restyledBy layout_keepsNames ht hobject "default").mono fun _ _ hmembers =>
      option_rel_mono hmembers fun _ _ hm => hm.laid.defaultAlike layout_readsSettings
  exact ⟨fun b b' hb => c.evaluate h.unwrap hb, c.matchOptions h.unwrap, c.callShape h, c.foldCall h,
    fun hs => ⟨c.inspectDefault h hs (hdefault s s' h hs), c.extract hdefault h hs⟩⟩

/-! ### A comment and some blanks -/

/-- Whether the same words are compared alike in two nodes made of parts, neither of which is a word. -/
def Syntax.Node.setAlike (n n' : Node) : Bool :=
  n.isFormed && !n.isWord && n.holdsMark && n'.holdsMark
    && decide ((n.part? .function).map (fun c => Project.builtinShape? c.text) =
      (n'.part? .function).map fun c => Project.builtinShape? c.text)
    && (!n.hasKind .nestedTypeIdentifier || Node.lastSegment n.text == Node.lastSegment n'.text)

/-- A comment, wherever it stands. -/
def Syntax.Node.isComment : Node → Bool
  | .leaf .comment none _ _ => true
  | _ => false

namespace Syntax.Node

mutual

/-- Whether two trees have the same tokens in the same nodes, comments aside, and read alike. -/
def sameTokens : Node → Node → Bool
  | .token _ _ t, .token _ _ t' => t == t'
  | .leaf k _ _ t, .leaf k' _ _ t' => k == k' && t == t'
  | .tree k r parts, .tree k' r' parts' =>
    k == k' && sameParts k parts parts' && (Node.tree k r parts).setAlike (.tree k' r' parts')
  | _, _ => false

def sameParts (k : Kind) : List Node → List Node → Bool
  | [], parts' => parts'.all isComment
  | part :: rest, parts' =>
    if part.isComment then sameParts k rest parts'
    else match parts'.dropWhile isComment with
      | [] => false
      | part' :: rest' => part.role? == part'.role? && sameTokens part part'
        && (!part.isSpelling k || part.text == part'.text) && sameParts k rest rest'

end

end Syntax.Node

namespace Syntax

variable {compared : String → Prop} {k : Kind}

theorem Node.LaidOut.of_setAlike (hwords : ∀ w, compared w → Node.isPlainName w = true) {n n' : Node}
    (h : n.setAlike n' = true) : n.LaidOut compared n' := by
  simp only [Node.setAlike, Bool.and_eq_true, Bool.not_eq_true', decide_eq_true_eq] at h
  obtain ⟨⟨⟨⟨⟨hformed, hword⟩, hmark⟩, hmark'⟩, hcallee⟩, hdotted⟩ := h
  refine ⟨hformed, fun htrue => ?_, fun w hw => ?_, ?_, fun hnested => ?_⟩
  · cases hword.symm.trans htrue
  · have hw : Node.isPlainName w = true := by
      rcases hw with hw | rfl | rfl
      · exact hwords w hw
      · decide +kernel
      · decide +kernel
    refine iff_of_false ?_ ?_
    · rintro rfl
      cases (isPlainName_text hmark).symm.trans hw
    · rintro rfl
      cases (isPlainName_text hmark').symm.trans hw
  · cases hc : n.part? .function <;> cases hc' : n'.part? .function <;> rw [hc, hc'] at hcallee
    · exact .none
    · cases hcallee
    · cases hcallee
    · exact .some (Option.some.inj hcallee)
  · rw [hnested] at hdotted
    exact eq_of_beq (by simpa using hdotted)

theorem Node.exists_comment {n : Node} (h : n.isComment = true) : ∃ b t, n = .leaf .comment none b t := by
  unfold Node.isComment at h
  split at h
  · exact ⟨_, _, rfl⟩
  · cases h

theorem RestyledParts.comments {σ : Style} {rest parts' : List Node}
    (h : RestyledParts σ k rest (parts'.dropWhile Node.isComment)) : RestyledParts σ k rest parts' := by
  induction parts' with
  | nil => exact h
  | cons part' rest' ih =>
    rw [List.dropWhile_cons] at h
    split at h
    · next hcomment =>
      obtain ⟨b, t, rfl⟩ := Node.exists_comment hcomment
      exact .comment' (ih h)
    · exact h

theorem RestyledParts.onlyComments {σ : Style} {parts' : List Node} (h : parts'.all Node.isComment = true) :
    RestyledParts σ k [] parts' := by
  induction parts' with
  | nil => exact .nil
  | cons part' rest' ih =>
    rw [List.all_cons, Bool.and_eq_true] at h
    obtain ⟨b, t, rfl⟩ := Node.exists_comment h.1
    exact .comment' (ih h.2)

mutual

/-- Trees with the same tokens are set differently. -/
theorem restyled_of_sameTokens (hwords : ∀ w, compared w → Node.isPlainName w = true) :
    ∀ {n n' : Node}, n.sameTokens n' = true → Restyled (layout compared) n n'
  | .token _ _ _, .token _ _ _, h => by
    rw [Node.sameTokens, beq_iff_eq] at h
    exact h ▸ .token
  | .leaf .., .leaf .., h => by
    rw [Node.sameTokens, Bool.and_eq_true, beq_iff_eq, beq_iff_eq] at h
    obtain ⟨rfl, rfl⟩ := h
    exact .leaf
  | .tree _ _ parts, .tree .., h => by
    rw [Node.sameTokens, Bool.and_eq_true, Bool.and_eq_true, beq_iff_eq] at h
    obtain ⟨⟨rfl, hparts⟩, hset⟩ := h
    exact .tree (restyled_of_sameParts hwords parts hparts) (.of_setAlike hwords hset)
  | .token .., .leaf .., h => nomatch h
  | .token .., .tree .., h => nomatch h
  | .leaf .., .token .., h => nomatch h
  | .leaf .., .tree .., h => nomatch h
  | .tree .., .token .., h => nomatch h
  | .tree .., .leaf .., h => nomatch h

theorem restyled_of_sameParts (hwords : ∀ w, compared w → Node.isPlainName w = true) {k : Kind} :
    ∀ (parts : List Node) {parts' : List Node}, Node.sameParts k parts parts' = true →
      RestyledParts (layout compared) k parts parts'
  | [], _, h => .onlyComments h
  | part :: rest, parts', h => by
    rw [Node.sameParts] at h
    split at h
    · next hcomment =>
      obtain ⟨b, t, rfl⟩ := Node.exists_comment hcomment
      exact .comment (restyled_of_sameParts hwords rest h)
    · split at h
      · cases h
      · next part' rest' hdrop =>
        simp only [Bool.and_eq_true, beq_iff_eq] at h
        obtain ⟨⟨⟨hrole, hpart⟩, hspelling⟩, hrest⟩ := h
        refine .comments ?_
        rw [hdrop]
        refine .cons hrole (.same (restyled_of_sameTokens hwords hpart) fun hspells => ?_)
          (restyled_of_sameParts hwords rest hrest)
        rw [hspells] at hspelling
        exact eq_of_beq (by simpa using hspelling)

end

end Syntax

/-- The names of the enumerations that are known anyway are plain. -/
theorem isPlainName_of_compares (w : String) (h : bareProject.Compares w) : Node.isPlainName w = true := by
  rcases h with ⟨members, hmembers⟩ | ⟨l, hl, -⟩
  · have hall : ∀ e ∈ Project.platformEnums, Node.isPlainName e.1 = true := by decide +kernel
    exact hall _ hmembers
  · cases hl

/-- The call `Object.fromEntries(x)`, with blanks before its dot and inside its parentheses. -/
def entriesCall (dot inside : String) : Node :=
  .tree .callExpression none
    [.tree .memberExpression (some .function)
       [.leaf .identifier (some .object) " " "Object", .token none dot ".",
        .leaf .propertyIdentifier (some .property) "" "fromEntries"],
     .tree .arguments (some .arguments)
       [.token none "" "(", .leaf .identifier none inside "x", .token none inside ")"]]

/-- The setting `{ default: … }`, behind comments. -/
def defaultSetting (comments : List Node) (default : Node) : Node :=
  .tree .object none
    (.token none "" "\x7b" :: comments ++ [memberPair "default" default, .token none " " "\x7d"])

def defaultProgram (comments : List Node) (default : Node) : Node :=
  .tree .program none [probeNode (defaultSetting comments default)]

/-- The setting in such a program. -/
def defaultSite (comments : List Node) (default : Node) : Site :=
  probedSite (defaultProgram comments default) (defaultSetting comments default)

def pairsComment : Node := .leaf .comment none " " "/* pairs */"

set_option maxRecDepth 8000 in
theorem spaced_arguments_alike :
    parse .plain "\nprobe(\x7b default: Object.fromEntries(x) \x7d);" =
      defaultProgram [] (entriesCall "" "") ∧
    parse .plain "\nprobe(\x7b /* pairs */ default: Object.fromEntries( x ) \x7d);" =
      defaultProgram [pairsComment] (entriesCall "" " ") ∧
    bareProject.Restyled (layout bareProject.Compares) bareProject ∧
    bareProject.lookups = bareProject.lookups ∧
    (defaultSite [] (entriesCall "" "")).Restyled (layout bareProject.Compares)
      (defaultSite [pairsComment] (entriesCall "" " ")) ∧
    (defaultSite [] (entriesCall "" "")).hasKind .object = true ∧
    ∀ retainHidden, Parallel Eq (bareProject.extract (defaultSite [] (entriesCall "" "")) retainHidden)
      (bareProject.extract (defaultSite [pairsComment] (entriesCall "" " ")) retainHidden) := by
  have hsame {n n' : Node} (h : n.sameTokens n' = true) : Restyled (layout bareProject.Compares) n n' :=
    restyled_of_sameTokens isPlainName_of_compares h
  have hsites : (defaultSite [] (entriesCall "" "")).Restyled (layout bareProject.Compares)
      (defaultSite [pairsComment] (entriesCall "" " ")) :=
    ⟨rfl, .cons (hsame (by decide +kernel)) (.cons (hsame (by decide +kernel))
      (.cons (hsame (by decide +kernel)) (.cons (hsame (by decide +kernel)) .nil))),
      hsame (by decide +kernel)⟩
  have hproject : bareProject.Restyled (layout bareProject.Compares) bareProject := restyled_bareProject _
  obtain ⟨-, -, -, -, hobject⟩ := layout_alike hproject rfl hsites
  exact ⟨by decide +kernel, by decide +kernel, hproject, rfl, hsites, rfl, (hobject rfl).2⟩

set_option maxRecDepth 8000 in
theorem spaced_callee_unread :
    parse .plain "\nprobe(\x7b default: Object.fromEntries(x) \x7d);" =
      defaultProgram [] (entriesCall "" "") ∧
    parse .plain "\nprobe(\x7b default: Object .fromEntries(x) \x7d);" =
      defaultProgram [] (entriesCall " " "") ∧
    (bareProject.callShape? (siteOf (entriesCall "" ""))).toOption = some (some .object) ∧
    (bareProject.callShape? (siteOf (entriesCall " " ""))).toOption = some none ∧
    targetOf (bareProject.extractSetting "a" (defaultSite [] (entriesCall "" ""))) = some .attrs ∧
    targetOf (bareProject.extractSetting "a" (defaultSite [] (entriesCall " " ""))) = some .nullableStr :=
  ⟨by decide +kernel, by decide +kernel, by decide +kernel, by decide +kernel, by decide +kernel,
    by decide +kernel⟩

end SettingsHarvest
