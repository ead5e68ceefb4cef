import SettingsHarvest.Proofs.Leaves
import SettingsHarvest.Syntax.Program
import SettingsHarvest.Syntax.TypeShape

/-! What a union says, however it is written.

Bars join two types each, so that a union of several is nested, and parentheses nest it further. What it
says is the answer of its members other than `null` and `undefined`, if they all give that one
(`union_shape_iff`) — unless some of the types that are joined within it are `null` and `undefined` alone:
these two are left aside by their spelling, and a union of them is not spelled like either. -/
namespace SettingsHarvest
open Syntax

/-! ### Forms -/

/-- A type put together with bars and parentheses. -/
inductive UnionForm where
  /-- The type `null`, or `undefined`. -/
  | void
  | member (type : Node)
  | either (left right : UnionForm)
  /-- A type behind a bar that nothing stands in front of. -/
  | led (inner : UnionForm)
  | grouped (inner : UnionForm)

/-- The members other than `null` and `undefined`. -/
def UnionForm.members : UnionForm → List Node
  | void => []
  | member type => [type]
  | either left right => left.members ++ right.members
  | led inner | grouped inner => inner.members

/-- Whatever is put together has a member other than `null` and `undefined`. -/
def UnionForm.VoidsApart : UnionForm → Prop
  | void | member _ => True
  | either left right => left.members ++ right.members ≠ [] ∧ left.VoidsApart ∧ right.VoidsApart
  | led inner | grouped inner => inner.members ≠ [] ∧ inner.VoidsApart

/-- The types `null` and `undefined`. -/
inductive IsVoid : Node → Prop where
  | null {r r' : Option Role} {blank : String} :
    IsVoid (.tree .literalType r [.leaf .nullLiteral r' blank "null"])
  | undefined {r r' : Option Role} {blank : String} :
    IsVoid (.tree .literalType r [.leaf .undefinedLiteral r' blank "undefined"])

/-- A type that is no union, nor `null` or `undefined`. -/
structure IsMember (n : Node) : Prop where
  union : n.hasKind .unionType = false
  grouped : n.hasKind .parenthesizedType = false
  text : n.text ≠ "null" ∧ n.text ≠ "undefined"

/-- A mark among the parts of a node. -/
def HasMark (mark : String) (parts : List Node) : Prop := ∃ r blank, .token r blank mark ∈ parts

/-- The types that are written in a form, with any white space and comments. -/
inductive UnionForm.SpelledBy : UnionForm → Node → Prop where
  | void {n : Node} : IsVoid n → SpelledBy .void n
  | member {n : Node} : IsMember n → SpelledBy (.member n) n
  | either {left right : UnionForm} {n n' : Node} {r : Option Role} {parts : List Node} :
    left.SpelledBy n → right.SpelledBy n' → HasMark "|" parts → parts.filter Node.isNamedPart = [n, n'] →
    SpelledBy (.either left right) (.tree .unionType r parts)
  | led {inner : UnionForm} {n : Node} {r : Option Role} {parts : List Node} :
    inner.SpelledBy n → HasMark "|" parts → parts.filter Node.isNamedPart = [n] →
    SpelledBy (.led inner) (.tree .unionType r parts)
  | grouped {inner : UnionForm} {n : Node} {r : Option Role} {parts : List Node} :
    inner.SpelledBy n → HasMark "(" parts → parts.filter Node.isNamedPart = [n] →
    SpelledBy (.grouped inner) (.tree .parenthesizedType r parts)

/-! ### Texts -/

theorem mem_piecesOf {n : Node} {parts : List Node} {piece : String × String} (hn : n ∈ parts)
    (h : piece ∈ n.pieces) : piece ∈ Node.piecesOf parts := by
  induction parts with
  | nil => cases hn
  | cons first rest ih =>
    rw [Node.piecesOf, List.mem_append]
    rcases List.mem_cons.1 hn with rfl | hrest
    · exact .inl h
    · exact .inr (ih hrest)

/-- A mark is in the text of a node of which it is a part. -/
theorem HasMark.mem_text {mark : String} {parts : List Node} (h : HasMark mark parts) {c : Char}
    (hc : c ∈ mark.toList) (k : Kind) (r : Option Role) : c ∈ (Node.tree k r parts).text.toList := by
  obtain ⟨r', blank, htoken⟩ := h
  have hpiece : (blank, mark) ∈ (Node.tree k r parts).pieces := by
    rw [Node.pieces]
    exact mem_piecesOf htoken (by simp [Node.pieces])
  exact Node.mem_joinPieces hpiece hc

theorem HasMark.text_ne {mark word : String} {parts : List Node} (h : HasMark mark parts) {c : Char}
    (hc : c ∈ mark.toList) (hword : c ∉ word.toList) (k : Kind) (r : Option Role) :
    (Node.tree k r parts).text ≠ word := by
  intro heq
  have hmem := h.mem_text hc k r
  rw [heq] at hmem
  exact hword hmem

/-! ### Answers -/

/-- The answers that a union gets of a part of it. -/
def answersOf (n : Node) : List (Option TypeShape) :=
  if n.text = "null" ∨ n.text = "undefined" then [] else [n.typeShape?]

theorem shapesOfMembers_eq (parts : List Node) :
    Node.shapesOfMembers parts = (parts.filter Node.isNamedPart).flatMap answersOf := by
  induction parts with
  | nil => rfl
  | cons p rest ih =>
    rw [Node.shapesOfMembers, ih]
    by_cases hnamed : p.isNamedPart = true
    · rw [List.filter_cons_of_pos hnamed, List.flatMap_cons]
      by_cases hnull : p.text = "null" <;> by_cases hundefined : p.text = "undefined" <;>
        simp [answersOf, hnamed, hnull, hundefined]
    · simp [hnamed]

theorem shapeOfFirst_eq (parts : List Node) :
    Node.shapeOfFirst parts = (parts.filter Node.isNamedPart).head?.bind Node.typeShape? := by
  induction parts with
  | nil => rfl
  | cons p rest ih =>
    rw [Node.shapeOfFirst, ih]
    by_cases hnamed : p.isNamedPart = true <;> simp [hnamed]

theorem agreed_eq_some_iff {answers : List (Option TypeShape)} {k : TypeShape} :
    Node.agreed answers = some k ↔ answers ≠ [] ∧ ∀ answer ∈ answers, answer = some k := by
  cases answers with
  | nil => simp [Node.agreed]
  | cons first rest =>
    simp only [Node.agreed, List.all_eq_true, beq_iff_eq, List.forall_mem_cons]
    constructor
    · intro h
      split at h
      · next hrest => exact ⟨nofun, h, fun answer hanswer => (hrest answer hanswer).trans h⟩
      · cases h
    · rintro ⟨-, hfirst, hrest⟩
      rw [if_pos fun answer hanswer => (hrest answer hanswer).trans hfirst.symm, hfirst]

/-- In which order answers come, and how often, does not matter. -/
theorem agreed_congr {answers answers' : List (Option TypeShape)}
    (h : ∀ answer, answer ∈ answers ↔ answer ∈ answers') : Node.agreed answers = Node.agreed answers' := by
  refine Option.ext fun k => ?_
  have hnil : answers = [] ↔ answers' = [] := by
    simp only [List.eq_nil_iff_forall_not_mem, h]
  rw [agreed_eq_some_iff, agreed_eq_some_iff, ne_eq, ne_eq, hnil]
  simp only [h]

/-! ### Unions -/

section Forms

variable {f f' : UnionForm} {n n' : Node} {k : TypeShape}

/-- What is not `null` or `undefined` itself has members, with these apart. -/
theorem UnionForm.VoidsApart.members_ne_nil (h : f.VoidsApart) (hvoid : f ≠ .void) : f.members ≠ [] := by
  cases f with
  | void => exact absurd rfl hvoid
  | member => nofun
  | either | led | grouped => exact h.1

theorem IsVoid.answersOf_eq (h : IsVoid n) : answersOf n = [] := by
  cases h <;> rfl

theorem IsVoid.typeShape_eq (h : IsVoid n) : n.typeShape? = none := by
  cases h <;> rfl

/-- Only what is `null` or `undefined` itself is left aside. -/
theorem UnionForm.SpelledBy.answersOf_cases (h : f.SpelledBy n) :
    f = .void ∧ answersOf n = [] ∨ f ≠ .void ∧ answersOf n = [n.typeShape?] := by
  cases h with
  | void hvoid => exact .inl ⟨rfl, hvoid.answersOf_eq⟩
  | member hmember => exact .inr ⟨nofun, if_neg (not_or.2 hmember.text)⟩
  | either _ _ hmark | led _ hmark | grouped _ hmark =>
    have hnull := hmark.text_ne List.mem_cons_self (by decide : _ ∉ "null".toList)
    have hundefined := hmark.text_ne List.mem_cons_self (by decide : _ ∉ "undefined".toList)
    exact .inr ⟨nofun, if_neg (not_or.2 ⟨hnull _ _, hundefined _ _⟩)⟩

/-- A form is of one kind, with `null` and `undefined` apart. -/
structure UnionForm.Agrees (f : UnionForm) (k : TypeShape) : Prop where
  members : ∀ m ∈ f.members, m.typeShape? = some k
  voidsApart : f.VoidsApart

theorem UnionForm.agrees_iff : f.Agrees k ↔ (∀ m ∈ f.members, m.typeShape? = some k) ∧ f.VoidsApart :=
  ⟨fun h => ⟨h.members, h.voidsApart⟩, fun h => ⟨h.1, h.2⟩⟩

theorem UnionForm.agrees_void : UnionForm.void.Agrees k := ⟨nofun, trivial⟩

theorem UnionForm.agrees_either : (f.either f').Agrees k ↔
    f.members ++ f'.members ≠ [] ∧ f.Agrees k ∧ f'.Agrees k := by
  constructor
  · intro h
    obtain ⟨hsome, hleft, hright⟩ := h.voidsApart
    have hmembers := List.forall_mem_append.1 h.members
    exact ⟨hsome, ⟨hmembers.1, hleft⟩, ⟨hmembers.2, hright⟩⟩
  · intro ⟨hsome, hleft, hright⟩
    exact ⟨List.forall_mem_append.2 ⟨hleft.members, hright.members⟩, hsome, hleft.voidsApart,
      hright.voidsApart⟩

theorem UnionForm.agrees_led : f.led.Agrees k ↔ f.members ≠ [] ∧ f.Agrees k := by
  rw [agrees_iff, agrees_iff]
  exact and_left_comm

theorem UnionForm.agrees_grouped : f.grouped.Agrees k ↔ f.members ≠ [] ∧ f.Agrees k := by
  rw [agrees_iff, agrees_iff]
  exact and_left_comm

/-- The answers that a union gets of a part, once the part says what it should. -/
theorem UnionForm.SpelledBy.answers_iff (h : f.SpelledBy n)
    (hshape : n.typeShape? = some k ↔ f.members ≠ [] ∧ f.Agrees k) :
    (∀ answer ∈ answersOf n, answer = some k) ↔ f.Agrees k := by
  rcases h.answersOf_cases with ⟨rfl, hanswers⟩ | ⟨hvoid, hanswers⟩
  · simp [hanswers, UnionForm.agrees_void]
  · rw [hanswers, List.forall_mem_singleton, hshape, and_iff_right_iff_imp]
    exact fun hagrees => hagrees.voidsApart.members_ne_nil hvoid

/-- A part adds no answers just if it has no members. -/
theorem UnionForm.SpelledBy.answersOf_eq_nil (h : f.SpelledBy n) (hapart : f.VoidsApart) :
    answersOf n = [] ↔ f.members = [] := by
  rcases h.answersOf_cases with ⟨rfl, hanswers⟩ | ⟨hvoid, hanswers⟩
  · simp [hanswers, UnionForm.members]
  · simp [hanswers, hapart.members_ne_nil hvoid]

theorem UnionForm.SpelledBy.append_ne_nil (h : f.SpelledBy n) (h' : f'.SpelledBy n')
    (hapart : f.VoidsApart) (hapart' : f'.VoidsApart) :
    answersOf n ++ answersOf n' ≠ [] ↔ f.members ++ f'.members ≠ [] := by
  rw [ne_eq, ne_eq, List.append_eq_nil_iff, List.append_eq_nil_iff, h.answersOf_eq_nil hapart,
    h'.answersOf_eq_nil hapart']

/-- A type says what its members agree on. -/
theorem UnionForm.SpelledBy.shape_iff (h : f.SpelledBy n) :
    n.typeShape? = some k ↔ f.members ≠ [] ∧ f.Agrees k := by
  induction h with
  | void hn => simp [hn.typeShape_eq, UnionForm.members]
  | member =>
    constructor
    · exact fun hn => ⟨nofun, List.forall_mem_singleton.2 hn, trivial⟩
    · exact fun h => h.2.members _ List.mem_cons_self
  | either hleft hright hmark hnamed ihleft ihright =>
    show Node.agreed (Node.shapesOfMembers _) = some k ↔ _
    rw [shapesOfMembers_eq, hnamed, agreed_eq_some_iff, UnionForm.agrees_either]
    simp only [List.flatMap_cons, List.flatMap_nil, List.append_nil, List.forall_mem_append,
      hleft.answers_iff ihleft, hright.answers_iff ihright]
    constructor
    · intro ⟨hsome, hl, hr⟩
      have hmembers := (hleft.append_ne_nil hright hl.voidsApart hr.voidsApart).1 hsome
      exact ⟨hmembers, hmembers, hl, hr⟩
    · intro ⟨hmembers, _, hl, hr⟩
      exact ⟨(hleft.append_ne_nil hright hl.voidsApart hr.voidsApart).2 hmembers, hl, hr⟩
  | led hinner hmark hnamed ih =>
    show Node.agreed (Node.shapesOfMembers _) = some k ↔ _
    rw [shapesOfMembers_eq, hnamed, agreed_eq_some_iff, List.flatMap_singleton, hinner.answers_iff ih,
      UnionForm.agrees_led]
    constructor
    · intro ⟨hsome, hagrees⟩
      have hmembers := mt (hinner.answersOf_eq_nil hagrees.voidsApart).2 hsome
      exact ⟨hmembers, hmembers, hagrees⟩
    · intro ⟨hmembers, _, hagrees⟩
      exact ⟨mt (hinner.answersOf_eq_nil hagrees.voidsApart).1 hmembers, hagrees⟩
  | grouped hinner hmark hnamed ih =>
    show Node.shapeOfFirst _ = some k ↔ _
    rw [shapeOfFirst_eq, hnamed, UnionForm.agrees_grouped]
    exact ih.trans ⟨fun h => ⟨h.1, h⟩, And.right⟩

theorem UnionForm.SpelledBy.shape_iff_agreed (h : f.SpelledBy n) :
    n.typeShape? = some k ↔ Node.agreed (f.members.map Node.typeShape?) = some k ∧ f.VoidsApart := by
  rw [h.shape_iff, UnionForm.agrees_iff, agreed_eq_some_iff, List.forall_mem_map, ne_eq, ne_eq,
    List.map_eq_nil_iff, and_assoc]

/-- **Unions.** A type says what all its members other than `null` and `undefined` say, if there are any
and nothing within it is put together of these two alone. Apart from that it does not matter in which
order, how often and in which nesting members with such answers are written. -/
theorem union_shape_iff (h : f.SpelledBy n) :
    (∀ k, n.typeShape? = some k ↔
      f.members ≠ [] ∧ (∀ m ∈ f.members, m.typeShape? = some k) ∧ f.VoidsApart) ∧
    ∀ (f' : UnionForm) (n' : Node), f'.SpelledBy n' → (f.VoidsApart ↔ f'.VoidsApart) →
      (∀ answer, answer ∈ f.members.map Node.typeShape? ↔ answer ∈ f'.members.map Node.typeShape?) →
      n.typeShape? = n'.typeShape? := by
  constructor
  · intro k
    rw [h.shape_iff, UnionForm.agrees_iff]
  · intro f' n' h' hapart hanswers
    refine Option.ext fun k => ?_
    rw [h.shape_iff_agreed, h'.shape_iff_agreed, agreed_congr hanswers, hapart]

end Forms

/-- A type that is joined with another one. -/
def unionNode (left right : Node) : Node := .tree .unionType none [left, .token none " " "|", right]

/-- `let x: type;` -/
def typedProgram (type : Node) : Node :=
  .tree .program none
    [.tree .lexicalDeclaration none
      [.token (some .kind) "" "let",
       .tree .variableDeclarator none
        [.leaf .identifier (some .name) " " "x",
         .tree .typeAscription (some .type) [.token none "" ":", type]],
       .token none "" ";"]]

def nullType : Node := .tree .literalType none [.leaf .nullLiteral none " " "null"]

def undefinedType : Node := .tree .literalType none [.leaf .undefinedLiteral none " " "undefined"]

def stringType : Node := .leaf .predefinedType none " " "string"

theorem spelledBy_stringType : (UnionForm.member stringType).SpelledBy stringType :=
  .member ⟨rfl, rfl, by decide, by decide⟩

theorem UnionForm.SpelledBy.union {f f' : UnionForm} {n n' : Node} (h : f.SpelledBy n)
    (h' : f'.SpelledBy n') (hnamed : n.isNamedPart = true) (hnamed' : n'.isNamedPart = true) :
    (f.either f').SpelledBy (unionNode n n') :=
  .either h h' ⟨none, " ", by simp⟩ (by
    rw [List.filter_cons_of_pos hnamed, List.filter_cons_of_neg Bool.false_ne_true,
      List.filter_cons_of_pos hnamed', List.filter_nil])

theorem text_or_void_shape :
    parse .plain "let x: string | null | undefined;" =
      typedProgram (unionNode (unionNode stringType nullType) undefinedType) ∧
    ∃ f : UnionForm, f.SpelledBy (unionNode (unionNode stringType nullType) undefinedType) ∧
      f.members = [stringType] ∧ f.VoidsApart ∧
      (unionNode (unionNode stringType nullType) undefinedType).typeShape? = some .string := by
  have hspelled : (((UnionForm.member stringType).either .void).either .void).SpelledBy
      (unionNode (unionNode stringType nullType) undefinedType) :=
    (spelledBy_stringType.union (.void .null) rfl rfl).union (.void .undefined) rfl rfl
  have hapart : (((UnionForm.member stringType).either .void).either .void).VoidsApart :=
    ⟨nofun, ⟨nofun, trivial, trivial⟩, trivial⟩
  refine ⟨by decide +kernel, _, hspelled, rfl, hapart, ?_⟩
  exact ((union_shape_iff hspelled).1 .string).2 ⟨nofun, List.forall_mem_singleton.2 rfl, hapart⟩

/-- In another order, the same members say nothing. -/
theorem void_pair_silences :
    parse .plain "let x: null | undefined | string;" =
      typedProgram (unionNode (unionNode nullType undefinedType) stringType) ∧
    (∃ f : UnionForm, f.SpelledBy (unionNode (unionNode nullType undefinedType) stringType) ∧
      f.members = [stringType]) ∧
    stringType.typeShape? = some .string ∧
    (unionNode (unionNode nullType undefinedType) stringType).typeShape? = none :=
  ⟨by decide +kernel,
    ⟨_, .union (.union (.void .null) (.void .undefined) rfl rfl) spelledBy_stringType rfl rfl, rfl⟩,
    rfl, rfl⟩

end SettingsHarvest
