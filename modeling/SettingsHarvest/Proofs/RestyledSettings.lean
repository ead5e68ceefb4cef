import SettingsHarvest.Proofs.DefaultCorrespondence
import SettingsHarvest.Proofs.RestyledScopes

/-! Settings in restyled programs.

Where parentheses are added around values of pairs only, and the texts and types that settings are read
from stay what they are (`Style.KeepsSettings`), settings correspond to their restyled forms in every
respect that extraction looks at (`Project.Restyled.settingCorrespondence`). -/
namespace SettingsHarvest
open Syntax

/-! ### Texts up to a brace -/

/-- The same text, or at least up to a brace. -/
def AgreeToBrace (t t' : String) : Prop :=
  t = t' ∨ ∃ start rest rest', t.toList = start ++ '\x7b' :: rest ∧ t'.toList = start ++ '\x7b' :: rest'

/-- A text that has no brace in it. -/
def IsBraceless (t : String) : Prop := '\x7b' ∉ t.toList

instance : DecidablePred IsBraceless := fun t => inferInstanceAs (Decidable ('\x7b' ∉ t.toList))

namespace AgreeToBrace

variable {t t' w : String}

theorem prefix_append_brace {start rest : List Char} (hw : IsBraceless w) :
    w.toList <+: start ++ '\x7b' :: rest ↔ w.toList <+: start := by
  refine ⟨fun h => ?_, fun h => h.trans (List.prefix_append _ _)⟩
  have hbrace : start ++ ['\x7b'] <+: start ++ '\x7b' :: rest := ⟨rest, by simp⟩
  rcases List.prefix_or_prefix_of_prefix h hbrace with hw' | hw'
  · rcases List.prefix_concat_iff.1 hw' with heq | hstart
    · exact absurd (by rw [heq]; simp) hw
    · exact hstart
  · exact absurd (hw'.subset (by simp)) hw

theorem prefix_iff (h : AgreeToBrace t t') (hw : IsBraceless w) :
    w.toList <+: t.toList ↔ w.toList <+: t'.toList := by
  obtain rfl | ⟨start, rest, rest', ht, ht'⟩ := h
  · rfl
  · rw [ht, ht', prefix_append_brace hw, prefix_append_brace hw]

theorem startsWith_eq (h : AgreeToBrace t t') (hw : IsBraceless w) :
    t.startsWith w = t'.startsWith w :=
  Bool.eq_iff_iff.2 (by rw [String.startsWith_string_iff, String.startsWith_string_iff, h.prefix_iff hw])

theorem eq_iff (h : AgreeToBrace t t') (hw : IsBraceless w) : t = w ↔ t' = w := by
  obtain rfl | ⟨start, rest, rest', ht, ht'⟩ := h
  · rfl
  · refine iff_of_false ?_ ?_
    · rintro rfl
      exact hw (by rw [ht]; simp)
    · rintro rfl
      exact hw (by rw [ht']; simp)

theorem contains_eq (h : AgreeToBrace t t') {words : List String} (hw : ∀ w ∈ words, IsBraceless w) :
    words.contains t = words.contains t' := by
  refine Bool.eq_iff_iff.2 ?_
  rw [List.contains_iff_mem, List.contains_iff_mem]
  refine ⟨fun hmem => ?_, fun hmem => ?_⟩
  · rwa [(h.eq_iff (hw t hmem)).1 rfl]
  · rwa [(h.eq_iff (hw t' hmem)).2 rfl]

/-- Behind a start without braces the texts agree as well. -/
theorem behind (h : AgreeToBrace t t') (hw : IsBraceless w) (hstart : w.toList <+: t.toList) :
    AgreeToBrace (String.ofList (t.toList.drop w.toList.length))
      (String.ofList (t'.toList.drop w.toList.length)) := by
  obtain rfl | ⟨start, rest, rest', ht, ht'⟩ := h
  · exact .inl rfl
  · rw [ht, prefix_append_brace hw] at hstart
    obtain ⟨middle, rfl⟩ := hstart
    refine .inr ⟨middle, rest, rest', ?_, ?_⟩
    · rw [ht, String.toList_ofList, List.append_assoc, List.drop_left]
    · rw [ht', String.toList_ofList, List.append_assoc, List.drop_left]

/-- What is known of a call by its text is known of both. -/
theorem builtinShape_eq (h : AgreeToBrace t t') :
    Project.builtinShape? t = Project.builtinShape? t' := by
  have hobject : t.startsWith "Object." = t'.startsWith "Object." := h.startsWith_eq (by decide +kernel)
  have harray : t.startsWith "Array." = t'.startsWith "Array." := h.startsWith_eq (by decide +kernel)
  unfold Project.builtinShape?
  rw [← hobject, ← harray]
  split
  · next hstart =>
    have hmethod := h.behind (by decide +kernel) (String.startsWith_string_iff.1 hstart)
    have hobjects := @contains_eq _ _ hmethod ["fromEntries", "assign", "create"] (by decide +kernel)
    have hlists := @contains_eq _ _ hmethod ["keys", "values", "entries"] (by decide +kernel)
    rw [show "Object.".toList.length = 7 from rfl] at hobjects hlists
    dsimp only
    rw [hobjects, hlists]
  · rfl

end AgreeToBrace

/-! ### Styles -/

/-- What a node made of parts keeps in another style, so that settings in it are read as they were. -/
structure Syntax.Node.KeepsSettings (n n' : Node) : Prop extends n.KeepsSpelling n' where
  /-- Pairs stand among the members of objects, and are no operands. -/
  placed : ∀ part ∈ n.parts, part.hasKind .pair = true → part.role? = none
  callee : Option.Rel (fun c c' => AgreeToBrace c.text c'.text) (n.part? .function) (n'.part? .function)
  annotation : (n.part? .type).map Node.typeShape? = (n'.part? .type).map Node.typeShape?
  assertion : n.assertedType?.map (fun t => (t.typeShape?, t.elementShape?)) =
    n'.assertedType?.map fun t => (t.typeShape?, t.elementShape?)

/-- A style that adds parentheses around values of pairs, and in which settings are read as they were. -/
structure Syntax.Style.KeepsSettings (σ : Style) : Prop where
  keeps : ∀ n n', σ.keeps n n' → n.KeepsSettings n'
  adds : ∀ k inner outer, σ.adds k inner outer → k = .pair ∧
    ∃ r b b', outer = .tree .parenthesizedExpression r [.token none b "(", inner, .token none b' ")"]

theorem Syntax.Style.KeepsSettings.keepsSpelling {σ : Style} (hσ : σ.KeepsSettings) : σ.KeepsSpelling :=
  fun n n' h => (hσ.keeps n n' h).toKeepsSpelling

/-- Parentheses say nothing about a type. -/
theorem Syntax.Node.assertedShape_parentheses {inner : Node} (hinner : inner.isNamedPart = true)
    (r : Option Role) (b b' : String) : (Node.tree .parenthesizedExpression r
      [.token none b "(", inner, .token none b' ")"]).assertedShape? = inner.assertedShape? := by
  have htoken (b t : String) : (Node.token none b t).isNamedPart = false := rfl
  have hnone : (Node.tree .parenthesizedExpression r
      [.token none b "(", inner, .token none b' ")"]).assertedType? = none := rfl
  rw [Node.assertedShape?, hnone]
  dsimp only [Option.bind_none]
  rw [if_pos (by decide), Node.assertedShapeOfFirst, htoken, if_neg (by decide), Node.assertedShapeOfFirst,
    if_pos hinner]

/-- A style that adds at most parentheses around values of pairs, and in which all that settings are read
from is read alike: names, the types around expressions, and the texts of callees, as far as they are
compared with those of known methods and with some other words. -/
structure Syntax.Style.ReadsSettings (compared : String → Prop) (σ : Style) : Prop where
  names : σ.KeepsNames
  adds : ∀ k inner outer, σ.adds k inner outer → k = .pair ∧
    ∃ r b b', outer = .tree .parenthesizedExpression r [.token none b "(", inner, .token none b' ")"]
  placed : ∀ {n n'}, Restyled σ n n' → ∀ part ∈ n.parts, part.hasKind .pair = true → part.role? = none
  callee : ∀ {n n'}, Restyled σ n n' → Option.Rel (fun c c' =>
    Project.builtinShape? c.text = Project.builtinShape? c'.text ∧ ∀ w, compared w → (c.text = w ↔ c'.text = w))
    (n.part? .function) (n'.part? .function)
  annotation : ∀ {n n'}, Restyled σ n n' →
    (n.part? .type).map Node.typeShape? = (n'.part? .type).map Node.typeShape?
  assertion : ∀ {n n'}, Restyled σ n n' →
    n.assertedType?.map (fun t => (t.typeShape?, t.elementShape?)) =
      n'.assertedType?.map fun t => (t.typeShape?, t.elementShape?)

theorem Syntax.Restyled.keepsSettings {σ : Style} (hσ : σ.KeepsSettings) {n n' : Node}
    (h : Restyled σ n n') : n.KeepsSettings n' ∨ n.parts = [] ∧ n'.parts = [] := by
  cases h with
  | token => exact .inr ⟨rfl, rfl⟩
  | leaf => exact .inr ⟨rfl, rfl⟩
  | tree _ hkeeps => exact .inl (hσ.keeps _ _ hkeeps)

theorem Syntax.Node.assertedType_eq_none {n : Node} (h : n.parts = []) : n.assertedType? = none := by
  rw [Node.assertedType?, Node.named, h]
  split <;> rfl

theorem Syntax.Style.KeepsSettings.reads {σ : Style} (hσ : σ.KeepsSettings) :
    σ.ReadsSettings IsBraceless where
  names := hσ.keepsSpelling.names
  adds := hσ.adds
  placed {n n'} h part hpart := by
    rcases h.keepsSettings hσ with hkeeps | ⟨hn, -⟩
    · exact hkeeps.placed part hpart
    · rw [hn] at hpart
      cases hpart
  callee {n n'} h := by
    rcases h.keepsSettings hσ with hkeeps | ⟨hn, hn'⟩
    · exact option_rel_mono hkeeps.callee fun _ _ htext =>
        ⟨htext.builtinShape_eq, fun _ hw => htext.eq_iff hw⟩
    · rw [Node.part?, Node.part?, hn, hn']
      exact .none
  annotation {n n'} h := by
    rcases h.keepsSettings hσ with hkeeps | ⟨hn, hn'⟩
    · exact hkeeps.annotation
    · rw [Node.part?, Node.part?, hn, hn']
  assertion {n n'} h := by
    rcases h.keepsSettings hσ with hkeeps | ⟨hn, hn'⟩
    · exact hkeeps.assertion
    · rw [Node.assertedType_eq_none hn, Node.assertedType_eq_none hn']

mutual

/-- What assertions say is the same. -/
theorem Syntax.Restyled.assertedShape_eq {compared : String → Prop} {σ : Style}
    (hσ : σ.ReadsSettings compared) :
    ∀ {n n' : Node}, Restyled σ n n' → n.assertedShape? = n'.assertedShape?
  | _, _, .token => rfl
  | _, _, .leaf => rfl
  | _, _, @Restyled.tree _ k r r' parts parts' hparts hkeeps => by
    have hassertion := hσ.assertion (.tree hparts hkeeps)
    have hshape : (Node.tree k r parts).assertedType?.bind Node.typeShape? =
        (Node.tree k r' parts').assertedType?.bind Node.typeShape? := by
      generalize (Node.tree k r parts).assertedType? = t at hassertion
      generalize (Node.tree k r' parts').assertedType? = t' at hassertion
      cases t <;> cases t' <;> simp_all
    rw [Node.assertedShape?, Node.assertedShape?, ← hshape]
    split
    · rfl
    · split
      · exact hparts.assertedShapeOfFirst_eq hσ
      · rfl

theorem Syntax.RestyledPart.assertedShape_eq {compared : String → Prop} {σ : Style}
    (hσ : σ.ReadsSettings compared) :
    ∀ {k : Kind} {n n' : Node}, RestyledPart σ k n n' → n.assertedShape? = n'.assertedShape?
  | _, _, _, .same h _ => h.assertedShape_eq hσ
  | _, _, _, .wrapped _ h hwraps hadds => by
    obtain ⟨-, r, b, b', rfl⟩ := hσ.adds _ _ _ hadds
    rw [Node.assertedShape_parentheses hwraps.isNamedPart]
    exact h.assertedShape_eq hσ

theorem Syntax.RestyledParts.assertedShapeOfFirst_eq {compared : String → Prop} {σ : Style}
    (hσ : σ.ReadsSettings compared) :
    ∀ {k : Kind} {parts parts' : List Node}, RestyledParts σ k parts parts' →
      Node.assertedShapeOfFirst parts = Node.assertedShapeOfFirst parts'
  | _, _, _, .nil => rfl
  | _, _, _, .cons _ hpart hrest => by
    rw [Node.assertedShapeOfFirst, Node.assertedShapeOfFirst, hpart.isNamedPart_eq]
    split
    · exact hpart.assertedShape_eq hσ
    · exact hrest.assertedShapeOfFirst_eq hσ
  | _, _, _, .comment hrest => hrest.assertedShapeOfFirst_eq hσ
  | _, _, _, .comment' hrest => hrest.assertedShapeOfFirst_eq hσ

end

section Settings

variable {compared : String → Prop} {σ : Style} (hσ : σ.ReadsSettings compared) {k : Kind} {n n' : Node}
  {s s' : Site}

include hσ

/-! ### Nodes -/

/-- Only values of pairs come to be in parentheses. -/
theorem Syntax.RestyledPart.restyled_of_ne (h : RestyledPart σ k n n') (hk : k ≠ .pair) :
    Restyled σ n n' := by
  cases h with
  | same h => exact h
  | wrapped _ _ _ hadds => exact absurd (hσ.adds _ _ _ hadds).1 hk

namespace Syntax.Site.Restyled

theorem part_ne_pair (h : s.Restyled σ s') {r : Role} {t : Site} (ht : s.part? r = some t) :
    t.kind? ≠ some .pair := by
  intro hpair
  obtain ⟨m, hm, rfl⟩ := Option.map_eq_some_iff.1 ht
  have hmem : m ∈ s.node.parts := List.mem_of_find?_eq_some hm
  have hrole : m.role? = some r := by simpa using List.find?_some hm
  cases hrole.symm.trans (hσ.placed h.node m hmem (beq_iff_eq.2 hpair))

/-- The named parts of what is no pair. -/
theorem plainNamed (h : s.Restyled σ s') (hk : s.kind? ≠ some .pair) :
    List.Forall₂ (Site.Restyled σ) s.named s'.named := by
  cases hkind : s.kind? with
  | none =>
    rw [(h.named_eq_nil hkind).1, (h.named_eq_nil hkind).2]
    exact .nil
  | some k =>
    have hne : k ≠ .pair := fun heq => hk (heq ▸ hkind)
    have hnamed := (h.node.aligned hkind).aligned.named fun _ _ hpart => hpart.isNamedPart_eq
    exact List.forall₂_map_left_iff.2 (List.forall₂_map_right_iff.2
      (hnamed.imp fun _ _ hpart => h.inside (hpart.restyled_of_ne hσ hne)))

/-- A part of what is no pair. -/
theorem plainPartOf (h : s.Restyled σ s') (hk : s.kind? ≠ some .pair) (r : Role) :
    Option.Rel (Site.Restyled σ) (s.part? r) (s'.part? r) := by
  cases hkind : s.kind? with
  | none => exact h.plainPart fun k hk => nomatch hkind.symm.trans hk
  | some k =>
    have hne : k ≠ .pair := fun heq => hk (heq ▸ hkind)
    exact option_rel_map (h.partOf hkind r) fun _ _ hpart => h.inside (hpart.2.restyled_of_ne hσ hne)

omit hσ in
/-- A word of the language stays as it is spelled. -/
theorem isGetter_eq (h : s.Restyled σ s') : s.isGetter = s'.isGetter := by
  unfold Site.isGetter
  rw [← h.hasKind_eq]
  cases hkind : s.hasKind .methodDefinition with
  | false => rfl
  | true =>
    have haligned := (h.node.aligned (Site.hasKind_iff.1 hkind)).aligned
    generalize s.node.parts = parts at haligned
    generalize s'.node.parts = parts' at haligned
    induction haligned with
    | nil => rfl
    | cons _ hpart _ ih =>
      rw [Bool.true_and, Bool.true_and] at ih
      rw [Bool.true_and, Bool.true_and, List.any_cons, List.any_cons, ih]
      cases hpart.restyled (Node.mayWrap_eq_false rfl _) <;> rfl
    | comment _ ih => exact ih
    | comment' _ ih => exact ih

/-! ### Calls -/

omit hσ in
theorem callee (h : s.Restyled σ s') : Option.Rel (Site.Restyled σ) s.callee? s'.callee? :=
  h.plainPart fun k _ => Kind.not_mem_operandRoles (by decide) k

theorem calleeText (h : s.Restyled σ s') : Option.Rel (fun c c' : Site =>
    Project.builtinShape? c.text = Project.builtinShape? c'.text ∧ ∀ w, compared w → (c.text = w ↔ c'.text = w))
    s.callee? s'.callee? :=
  option_rel_map (hσ.callee h.node) fun _ _ htext => htext

omit hσ in
theorem callArguments (h : s.Restyled σ s') :
    List.Forall₂ (Unwrapped (Site.Restyled σ)) s.callArguments s'.callArguments := by
  have hpart := h.plainPart (r := .arguments) fun k _ => Kind.not_mem_operandRoles (by decide) k
  unfold Site.callArguments
  rcases option_rel_cases hpart with ⟨ha, ha'⟩ | ⟨a, a', ha, ha', hsame⟩
  · rw [ha, ha']
    exact .nil
  · rw [ha, ha']
    exact hsame.elements

omit hσ in
theorem isMethodCall_eq (h : s.Restyled σ s') (name : String) :
    s.isMethodCall name = s'.isMethodCall name := by
  unfold Site.isMethodCall
  rw [← h.hasKind_eq]
  rcases option_rel_cases h.callee with ⟨hc, hc'⟩ | ⟨c, c', hc, hc', hcallee⟩
  · rw [hc, hc']
  · rw [hc, hc']
    dsimp only
    rw [← hcallee.hasKind_eq]
    cases hkind : c.hasKind .memberExpression with
    | false => rfl
    | true =>
      have hproperty := hcallee.spelledPart (Site.hasKind_iff.1 hkind) (r := .property) (by decide)
        (Node.isSpelling_of_role (by decide))
      rcases option_rel_cases hproperty with ⟨hp, hp'⟩ | ⟨q, q', hp, hp', -, htext⟩
      · rw [hp, hp']
      · rw [hp, hp', Option.any_some, Option.any_some, htext]

/-- The object a method is called on. -/
theorem calledOn (h : s.Restyled σ s') :
    Option.Rel (Site.Restyled σ) (s.callee?.bind (·.part? .object)) (s'.callee?.bind (·.part? .object)) := by
  cases hc : s.callee? with
  | none =>
    rcases option_rel_cases h.callee with ⟨-, hc'⟩ | ⟨c, c', hsome, -⟩
    · rw [hc']
      exact .none
    · cases hc.symm.trans hsome
  | some c =>
    rcases option_rel_cases h.callee with ⟨hnone, -⟩ | ⟨d, d', hsome, hc', hcallee⟩
    · cases hc.symm.trans hnone
    · cases hc.symm.trans hsome
      rw [hc']
      exact hcallee.plainPartOf hσ (h.part_ne_pair hσ hc) .object

theorem isMethodCallOn_eq (h : s.Restyled σ s') (receiver name : String) :
    s.isMethodCallOn receiver name = s'.isMethodCallOn receiver name := by
  unfold Site.isMethodCallOn
  rw [← h.isMethodCall_eq]
  rcases option_rel_cases (h.calledOn hσ) with ⟨ho, ho'⟩ | ⟨o, o', ho, ho', hobject⟩
  · rw [ho, ho']
  · rw [ho, ho']
    dsimp only
    rw [← hobject.hasKind_eq]
    cases hkind : o.hasKind .identifier with
    | false => rfl
    | true => rw [hobject.wordText hσ.names (Site.hasKind_iff.1 hkind) (by decide)]

omit hσ in
theorem receiver (h : s.Restyled σ s') :
    Option.Rel (Unwrapped (Site.Restyled σ)) s.receiver? s'.receiver? := by
  unfold Site.receiver?
  rcases option_rel_cases h.callee with ⟨hc, hc'⟩ | ⟨c, c', hc, hc', hcallee⟩
  · rw [hc, hc']
    exact .none
  · rw [hc, hc']
    dsimp only
    rw [← hcallee.hasKind_eq]
    split
    · exact hcallee.part .object
    · exact .none

theorem builtinAnswer_eq (h : s.Restyled σ s') : s.builtinAnswer? = s'.builtinAnswer? := by
  unfold Site.builtinAnswer?
  rcases option_rel_cases (h.calleeText hσ) with ⟨hc, hc'⟩ | ⟨c, c', hc, hc', htext⟩
  · rw [hc, hc']
  · rw [hc, hc', Option.bind_some, Option.bind_some, htext.1]

theorem calls_eq (h : s.Restyled σ s') {name : String} (hname : compared name) :
    (s.callee?.map Site.text != some name) = (s'.callee?.map Site.text != some name) := by
  rcases option_rel_cases (h.calleeText hσ) with ⟨hc, hc'⟩ | ⟨c, c', hc, hc', htext⟩
  · rw [hc, hc']
  · rw [hc, hc', Option.map_some, Option.map_some, Bool.eq_iff_iff, bne_iff_ne, bne_iff_ne, ne_eq, ne_eq,
      Option.some_inj, Option.some_inj, htext.2 name hname]

/-! ### Functions -/

theorem parameterNames_eq (h : s.Restyled σ s') : s.parameterNames? = s'.parameterNames? := by
  have hword (q q' : Site) (hq : q.Restyled σ q') : (if q.hasKind .identifier then some q.text else none) =
      if q'.hasKind .identifier then some q'.text else none := by
    rw [← hq.hasKind_eq]
    split
    · next hkind => rw [hq.wordText hσ.names (Site.hasKind_iff.1 hkind) (by decide)]
    · rfl
  have hplain {r : Role} (hr : r ∉ [Role.left, .right, .argument, .object, .index, .value]) {s s' : Site}
      (h : s.Restyled σ s') := h.plainPart (r := r) fun k _ => Kind.not_mem_operandRoles hr k
  unfold Site.parameterNames?
  rcases option_rel_cases (hplain (r := .parameter) (by decide) h) with
    ⟨hp, hp'⟩ | ⟨q, q', hp, hp', hsame⟩
  · rw [hp, hp']
    dsimp only
    rcases option_rel_cases (hplain (r := .parameters) (by decide) h) with
      ⟨hq, hq'⟩ | ⟨params, params', hq, hq', hparams⟩
    · rw [hq, hq']
    · rw [hq, hq']
      dsimp only
      refine forall₂_mapM_eq (hparams.plainNamed hσ (h.part_ne_pair hσ hq)) fun q q' hsame => ?_
      have hpattern : Option.Rel (Site.Restyled σ)
          (if q.hasKind .identifier then some q else q.part? .pattern)
          (if q'.hasKind .identifier then some q' else q'.part? .pattern) := by
        rw [← hsame.hasKind_eq]
        split
        · exact .some hsame
        · exact hplain (by decide) hsame
      rcases option_rel_cases hpattern with ⟨hn, hn'⟩ | ⟨name, name', hn, hn', hname⟩
      · rw [hn, hn']
      · rw [hn, hn']
        exact hword name name' hname
  · rw [hp, hp']
    dsimp only
    rw [← hsame.hasKind_eq]
    split
    · next hkind => rw [hsame.wordText hσ.names (Site.hasKind_iff.1 hkind) (by decide)]
    · rfl

/-- The expression that a function answers. -/
theorem bodyExpression (h : s.Restyled σ s') :
    Option.Rel (Unwrapped (Site.Restyled σ)) s.bodyExpression? s'.bodyExpression? := by
  have hhead {t t' : Site} (ht : t.Restyled σ t') (hkind : t.kind? ≠ some .pair) :
      Option.Rel (Site.Restyled σ) t.named.head? t'.named.head? := by
    rw [List.head?_eq_getElem?, List.head?_eq_getElem?]
    exact forall₂_getElem (ht.plainNamed hσ hkind) 0
  have hbody := h.plainPart (r := .body) fun k _ => Kind.not_mem_operandRoles (by decide) k
  unfold Site.bodyExpression?
  rcases option_rel_cases hbody with ⟨hb, hb'⟩ | ⟨body, body', hb, hb', hsame⟩
  · rw [hb, hb']
    exact .none
  · rw [hb, hb']
    dsimp only
    rw [← hsame.hasKind_eq]
    split
    · rcases option_rel_cases (hhead hsame (h.part_ne_pair hσ hb)) with
        ⟨hf, hf'⟩ | ⟨first, first', hf, hf', hfirst⟩
      · rw [hf, hf']
        exact .none
      · rw [hf, hf']
        dsimp only
        rw [← hfirst.hasKind_eq]
        split
        · next hkind =>
          refine option_rel_mono (hhead hfirst ?_) fun _ _ he => he.unwrap
          rw [Site.hasKind_iff.1 hkind]
          decide
        · exact .none
    · exact .some hsame.unwrap

/-! ### Types -/

theorem declaredShape_eq (h : s.Restyled σ s') : s.declaredShape? = s'.declaredShape? := by
  obtain ⟨file, above, node⟩ := s
  obtain ⟨file', above', node'⟩ := s'
  unfold Site.declaredShape?
  rw [← h.node.assertedShape_eq hσ]
  split
  · rfl
  · have haround : Around σ above above' := h.around
    cases haround with
    | nil => rfl
    | @cons n n' rest rest' hn _ =>
      have hannotation := hσ.annotation hn
      have hshape : (n.part? .type).bind Node.typeShape? = (n'.part? .type).bind Node.typeShape? := by
        cases ht : n.part? .type <;> cases ht' : n'.part? .type <;> simp_all
      show (if n.hasKind .variableDeclarator then (n.part? .type).bind Node.typeShape? else none) =
        if n'.hasKind .variableDeclarator then (n'.part? .type).bind Node.typeShape? else none
      rw [← hn.hasKind_eq, hshape]
    | @added n wrapper rest rest' hn hw _ =>
      -- Wrappers are added around values of pairs, and neither they nor pairs declare a type.
      obtain ⟨k, inner, outer, hk, hadds⟩ := hn
      obtain ⟨k', hk', hwrapper⟩ := Kind.exists_wrapper hw
      have hpair : n.hasKind .variableDeclarator = false := by
        rw [Node.hasKind, hk, (hσ.adds _ _ _ hadds).1]
        rfl
      have hplain : wrapper.hasKind .variableDeclarator = false := by
        rw [Node.hasKind, hk']
        cases k' <;> first | rfl | cases hwrapper
      show (if n.hasKind .variableDeclarator then (n.part? .type).bind Node.typeShape? else none) =
        if wrapper.hasKind .variableDeclarator then (wrapper.part? .type).bind Node.typeShape? else none
      rw [hpair, hplain]
      rfl

/-! ### Lists -/

omit hσ in
/-- Where the same types are asserted of lists, or there is no list at all, the checks of lists agree. -/
theorem listChecks (h : Unwrapped (Site.Restyled σ) s s')
    (hasserted : s.unwrap.hasKind .array = true →
      s.node.assertedType?.map Node.elementShape? = s'.node.assertedType?.map Node.elementShape?) :
    s.isStringArray = s'.isStringArray ∧ s.isObjectArray = s'.isObjectArray ∧
      (s.unwrap.hasKind .array = true → s.isEmptyTypedArray = s'.isEmptyTypedArray) := by
  have hkind : s.unwrap.hasKind .array = s'.unwrap.hasKind .array := h.hasKind_eq .array
  have hall (k : Kind) : (s.unwrap.named.all (·.unwrap.hasKind k)) =
      s'.unwrap.named.all (·.unwrap.hasKind k) := forall₂_all h.elements fun _ _ he => he.hasKind_eq k
  have hempty : s.unwrap.named.isEmpty = s'.unwrap.named.isEmpty := forall₂_isEmpty h.elements
  unfold Site.isStringArray Site.isObjectArray Site.isEmptyTypedArray
  dsimp only
  rw [← hkind, ← hall, ← hall, ← hempty]
  cases harray : s.unwrap.hasKind .array with
  | false => exact ⟨rfl, rfl, fun htrue => absurd htrue Bool.false_ne_true⟩
  | true =>
    have heq := hasserted harray
    cases ht : s.node.assertedType? <;> cases ht' : s'.node.assertedType? <;> rw [ht, ht'] at heq
    · exact ⟨rfl, rfl, fun _ => rfl⟩
    · cases heq
    · cases heq
    · have heq := Option.some.inj heq
      dsimp only
      rw [Option.bind_some, Option.bind_some, heq]
      exact ⟨rfl, rfl, fun _ => rfl⟩

theorem assertedElements_eq (h : Syntax.Restyled σ n n') :
    n.assertedType?.map Node.elementShape? = n'.assertedType?.map Node.elementShape? := by
  have hassertion := hσ.assertion h
  cases ht : n.assertedType? <;> cases ht' : n'.assertedType? <;> rw [ht, ht'] at hassertion <;> simp_all

theorem defaultAlike (h : s.Restyled σ s') : DefaultAlike (Site.Restyled σ) s s' :=
  have hchecks := listChecks h.unwrap fun _ => assertedElements_eq hσ h.node
  ⟨h.unwrap, h.declaredShape_eq hσ, hchecks.1, hchecks.2.1, hchecks.2.2⟩

end Syntax.Site.Restyled

/-- With parentheses around values of pairs only, initializers of variables are as they were. -/
theorem Site.RestyledValue.restyled (h : Site.RestyledValue σ s s') : s.Restyled σ s' := by
  cases h with
  | same h => exact h
  | initializer h _ hpart => exact h.inside (hpart.restyled_of_ne hσ nofun)

/-- **Restyling.** Settings correspond to their restyled forms in every respect that extraction looks
at, where texts that are looked up outside the files are found alike, and the names of helpers are among
the words compared. -/
theorem Project.Restyled.settingCorrespondenceOf {p p' : Project} (hp : p.Restyled σ p')
    (houtside : ∀ {s s' : Site}, s.Restyled σ s' → ∀ key, p.enumMember? s.text key = p'.enumMember? s'.text key)
    (hlookups : p.lookups = p'.lookups)
    (hhelpers : ∀ l ∈ p.lookups, ∀ name, l.helper = .ok name → compared name) :
    SettingCorrespondence p p' (Site.Restyled σ) (Site.RestyledValue σ) where
  toCorrespondence := hp.correspondenceOf hσ.names houtside
  lookups := hlookups
  partOf h r := h.part r
  parts h := h.elements
  memberKey h := h.memberKey_eq hσ.names
  isGetter h := h.isGetter_eq
  spreads h hs := (h.plainNamed hσ (by rw [Site.hasKind_iff.1 hs]; decide)).imp
    fun _ _ he => he.hasKind_eq _
  arguments h := h.callArguments
  method h := h.isMethodCall_eq
  methodOn h := h.isMethodCallOn_eq hσ
  receiver h := h.receiver
  builtin h := h.builtinAnswer_eq hσ
  helper h l hl name hname := h.calls_eq hσ (hhelpers l hl name hname)
  parameterNames h := h.parameterNames_eq hσ
  body h := h.bodyExpression hσ
  topValue h name := by
    have c := hp.correspondenceOf hσ.names houtside
    refine (declarations hσ.names h.program).bind fun t t' ht => .ok ?_
    rcases option_rel_cases (ht.lookup name) with ⟨hl, hl'⟩ | ⟨d, d', hl, hl', hd⟩
    · rw [hl, hl']
      exact .none
    · rw [hl, hl']
      exact c.declaredValue hd
  typeShape h := hσ.annotation h.node
  declaredShape h := (h.restyled hσ).declaredShape_eq hσ
  isStringArray h := ((h.restyled hσ).defaultAlike hσ).isStringArray
  isObjectArray h := ((h.restyled hσ).defaultAlike hσ).isObjectArray

end Settings

/-- The same where no helper of lookup tables has a brace in its name. -/
theorem Project.Restyled.settingCorrespondence {σ : Style} (hσ : σ.KeepsSettings) {p p' : Project}
    (hp : p.Restyled σ p') (hplain : p.PlainEnums) (hlookups : p.lookups = p'.lookups)
    (hhelpers : ∀ l ∈ p.lookups, ∀ name, l.helper = .ok name → IsBraceless name) :
    SettingCorrespondence p p' (Site.Restyled σ) (Site.RestyledValue σ) :=
  hp.settingCorrespondenceOf hσ.reads
    (fun h key => hp.enumMember_eq hσ.keepsSpelling hplain h key) hlookups hhelpers

end SettingsHarvest
