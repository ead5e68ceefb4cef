import SettingsHarvest.Proofs.BoundNames
import SettingsHarvest.Proofs.EvaluationBound
import SettingsHarvest.Proofs.Substitution

/-! Bindings as substitution.

An expression under the binding of one name to a closed literal comes to what it comes to with the literal
written in place of the name (`evaluate_inPlace`). Bindings are looked at where a name is evaluated and
where a member is read from a name itself; the chains that `denoted?` follows know none, and neither do the
entries of literals. So members may be read from the name itself or from what does not mention it, and from
nothing that the name is only a part of (`Site.ReadsDirectly`).

The two evaluations do not go equally deep: a name takes one step to what it is bound to, a literal in its
place is there already. They are therefore compared `Until` the bound is met, by induction on the depth,
with everything that one step asks of the next ones in `Prepared`. -/
namespace SettingsHarvest
open Syntax Project

/-! ### Closed literals -/

/-- Literals: texts, numbers, truth values, lists and objects. -/
def Syntax.Kind.isLiteral : Kind → Bool
  | .string | .templateString | .number | .trueLiteral | .falseLiteral | .nullLiteral | .array
  | .object => true
  | _ => false

namespace Syntax.Site

/-- A number with a sign. -/
def IsSigned (s : Site) : Prop := s.hasKind .unaryExpression = true ∧
  ∃ argument, s.part? .argument = some argument ∧ argument.unwrap.hasKind .number = true

/-- A literal in which no name occurs. -/
structure IsClosedLiteral (e : Site) : Prop where
  literal : e.unwrap.kind?.any Kind.isLiteral = true ∨ e.unwrap.IsSigned
  closed : e.IsClosed

/-- A closed literal, in wrappers or not, is nothing of another kind. -/
theorem IsClosedLiteral.hasKind_eq_false {e : Site} (h : e.IsClosedLiteral) {k : Kind}
    (hwrapper : k.isWrapper = false) (hliteral : k.isLiteral = false) (hunary : k ≠ .unaryExpression) :
    e.hasKind k = false := by
  by_contra hkind
  have hkind : e.hasKind k = true := Bool.of_not_eq_false hkind
  have hunwrap : e.unwrap.kind? = some k := by
    rw [unwrap_eq_self hkind hwrapper]
    exact hasKind_iff.1 hkind
  rcases h.literal with hany | ⟨hsigned, -⟩
  · rw [hunwrap, Option.any_some, hliteral] at hany
    cases hany
  · exact hunary (Option.some.inj (hunwrap.symm.trans (hasKind_iff.1 hsigned)))

theorem IsClosedLiteral.isNamedPart {e : Site} (h : e.IsClosedLiteral) : e.node.isNamedPart = true := by
  have hcomment := h.hasKind_eq_false (k := .comment) rfl rfl (by decide)
  rw [Node.isNamedPart]
  cases hk : e.node.kind? with
  | some k => exact bne_iff_ne.2 fun heq => Bool.false_ne_true (hcomment.symm.trans (hasKind_iff.2 (heq ▸ hk)))
  | none =>
    obtain ⟨file, above, node⟩ := e
    cases node with
    | leaf k r b t => cases hk
    | tree k r parts => cases hk
    | token r b t =>
      rcases h.literal with hany | ⟨hsigned, -⟩
      · cases hany
      · cases hsigned

end Syntax.Site

section Literals

variable {p : Project} {e t : Site} {f : Fault}

/-- A literal is read without evaluating anything else. -/
theorem valueOf_literal (h : t.kind?.any Kind.isLiteral = true) (recur recur' : Evaluator)
    (b : Bindings) : p.valueOf recur b t = p.valueOf recur' b t := by
  unfold Project.valueOf
  cases hk : t.kind? with
  | none => rfl
  | some k =>
    rw [hk] at h
    cases k <;> first | rfl | cases h

/-- For a number with a sign, the number is evaluated, unless the bound is there. -/
theorem valueOf_signed (h : t.IsSigned) (depth : Nat) :
    p.valueOf (p.evaluateOver (stopping f) depth) [] t = .error f ∨
      p.valueOf (p.evaluateOver (stopping f) depth) [] t =
        p.valueOf (p.evaluateOver (stopping f) (depth + 1)) [] t := by
  obtain ⟨hkind, argument, hpart, hnumber⟩ := h
  have hunary (recur : Evaluator) : p.valueOf recur [] t = unaryValue recur [] t := by
    rw [Project.valueOf, Site.hasKind_iff.1 hkind]
  have hargument (recur : Evaluator) : partValue recur [] t .argument = recur argument [] := by
    rw [partValue, hpart]
  rw [hunary, hunary]
  unfold unaryValue
  cases UnaryOperator.ofText? (operatorText t) with
  | none => exact .inr rfl
  | some o =>
    dsimp only
    rw [hargument, hargument]
    cases depth with
    | zero => exact .inl rfl
    | succ depth =>
      have hliteral : argument.unwrap.kind?.any Kind.isLiteral = true := by
        rw [Site.hasKind_iff.1 hnumber]
        rfl
      have hsame : p.evaluateOver (stopping f) (depth + 1) argument [] =
          p.evaluateOver (stopping f) (depth + 2) argument [] := valueOf_literal hliteral _ _ []
      rw [hsame]
      exact .inr rfl

/-- A closed literal in another place, where its evaluation starts one step further from the bound. -/
theorem until_literal (he : e.IsClosedLiteral) (ht : t.node = e.unwrap.node) (depth : Nat) :
    Until f (Outcome.Alike Eq) (p.evaluateOver (stopping f) depth e [])
      (p.valueOf (p.evaluateOver (stopping f) depth) [] t) := by
  cases depth with
  | zero => exact .stopped
  | succ depth =>
    have hcopied : e.unwrap.Copied t := ⟨ht.symm, he.closed.unwrap⟩
    have halike : Parallel (Outcome.Alike Eq)
        (p.valueOf (p.evaluateOver (stopping f) (depth + 1)) [] e.unwrap)
        (p.valueOf (p.evaluateOver (stopping f) (depth + 1)) [] t) :=
      (Site.Copied.correspondence p).valueOf ((Site.Copied.correspondence p).evaluateOver f _) hcopied .nil
    show Until f _ (p.valueOf (p.evaluateOver (stopping f) depth) [] e.unwrap) _
    rcases he.literal with hliteral | hsigned
    · rw [valueOf_literal hliteral _ (p.evaluateOver (stopping f) (depth + 1))]
      exact .parallel halike
    · rcases valueOf_signed (p := p) (f := f) hsigned depth with hstop | hsame
      · rw [hstop]
        exact .stopped
      · rw [hsame]
        exact .parallel halike

end Literals

/-! ### An expression in place of the parameter -/

namespace Syntax.Site

/-- The expression to put in place of a name, for an element that the name is bound to. -/
def insteadOf (e : Site) (x : String) : Substitution := ⟨x, e.node⟩

/-- Forms that members are read from. -/
def isReadable (s : Site) : Bool :=
  s.isNameUse || s.hasKind .memberExpression || s.hasKind .object || s.hasKind .array

/-- Members are read from a name itself, from expressions that do not mention it, or where nothing is
read at all; never from a chain or a literal that the name is part of. -/
def ReadsDirectly (s : Site) (x : String) : Prop :=
  ∀ t ∈ s.walk, ∀ base, t.part? .object = some base →
    base.unwrap.hasKind .identifier = true ∧ base.unwrap.text = x ∨
      (∀ name, base.unwrap.Mentions name → name.text ≠ x) ∨ base.unwrap.isReadable = false

end Syntax.Site

/-- No enumeration outside the files is spelled like an expression that members are read from, names
aside. -/
def Project.Unlisted (p : Project) (s : Site) : Prop :=
  ∀ t ∈ s.walk, ∀ base, t.part? .object = some base → base.unwrap.isNameUse = false →
    p.enums.lookup base.unwrap.text = none

instance (s : Site) (x : String) : Decidable (s.ReadsDirectly x) :=
  decidable_of_iff (∀ t ∈ s.walk, (t.part? .object).all fun base =>
      base.unwrap.hasKind .identifier && base.unwrap.text == x ||
        (base.unwrap.walk.all fun name => !name.isNameUse || name.text != x) || !base.unwrap.isReadable) <| by
    refine forall₂_congr fun t _ => ?_
    have hfree (base : Site) : (base.walk.all fun name => !name.isNameUse || name.text != x) = true ↔
        ∀ name, base.Mentions name → name.text ≠ x := by
      simp only [List.all_eq_true, Bool.or_eq_true, Bool.not_eq_true', bne_iff_ne]
      exact ⟨fun h name hname => (h name hname.below).resolve_left fun hnone =>
          (nomatch hnone.symm.trans hname.isName),
        fun h name hname => or_iff_not_imp_left.2 fun hsome => h name ⟨hname, Bool.of_not_eq_false hsome⟩⟩
    cases t.part? .object with
    | none => exact ⟨fun _ _ hbase => (nomatch hbase), fun _ => rfl⟩
    | some base => simp [hfree, or_assoc]

instance (p : Project) (s : Site) : Decidable (p.Unlisted s) :=
  decidable_of_iff (∀ t ∈ s.walk, (t.part? .object).all fun base =>
      base.unwrap.isNameUse || (p.enums.lookup base.unwrap.text).isNone) <| by
    refine forall₂_congr fun t _ => ?_
    cases t.part? .object with
    | none => exact ⟨fun _ _ hbase => (nomatch hbase), fun _ => rfl⟩
    | some base => cases hname : base.unwrap.isNameUse <;> simp [hname]

/-- An expression that mentions `x`, and the same with `e` in its place, both without wrappers. -/
structure InPlaceOf (p : Project) (x : String) (e t t' : Site) : Prop where
  stands : t.Stands (e.insteadOf x) t'
  reads : t.ReadsDirectly x
  outside : p.Unlisted t
  outside' : p.Unlisted t'

/-- What one step of an evaluation needs of the next ones: they answer alike wherever an expression is,
for an element as for what is read in its place, and for the parts of what it was put into. -/
structure Prepared (p : Project) (f : Fault) (x : String) (e : Site) (recur : Evaluator) : Prop where
  moved : EvaluatesAlike Site.Moved recur recur
  copied : EvaluatesAlike Site.Copied recur recur
  element : ∀ t : Site, t.node = e.unwrap.node →
    Until f (Outcome.Alike Eq) (recur e []) (p.valueOf recur [] t)
  inPlace : ∀ s s', Unwrapped (InPlaceOf p x e) s s' →
    Until f (Outcome.Alike Eq) (recur s [(x, .expression e)]) (recur s' [])

section InPlace

variable {p : Project} {f : Fault} {x : String} {e t t' : Site} {recur : Evaluator} {k : Kind}

theorem agree_of_free {s : Site} (h : ∀ name, s.Mentions name → name.text ≠ x) :
    Site.Agree s [(x, .expression e)] [] := by
  intro name hname
  have hne : (name.text == x) = false := beq_eq_false_iff_ne.2 (h name hname)
  rw [List.lookup_cons, hne]

namespace InPlaceOf

/-- A part of a compound that is evaluated. -/
theorem part (he : e.IsClosedLiteral) (h : InPlaceOf p x e t t') (hk : t.kind? = some k)
    (hc : k.isCompound = true) (hobject : k ≠ .object) {r : Role}
    (hspelled : ∀ part : Node, part.role? = some r → part.isSpelledIn k = false) :
    Option.Rel (Unwrapped (InPlaceOf p x e)) (t.part? r) (t'.part? r) := by
  cases h.stands with
  | use huse _ => cases (Node.isCompound_facts hk hc x).1.symm.trans huse
  | other _ hsub =>
    rcases option_rel_cases (hsub.part hk hc hobject hspelled) with
      ⟨hp, hp'⟩ | ⟨part, part', hp, hp', hpart⟩
    · rw [hp, hp']
      exact .none
    · rw [hp, hp']
      refine .some ⟨?_, fun u hu => ?_, fun u hu => ?_, fun u hu => ?_⟩
      · rcases hpart.unwrap he.isNamedPart with ⟨huse, hnode⟩ | ⟨huse, hpart⟩
        · exact .use huse hnode
        · exact .other huse hpart
      · exact h.reads u (Site.mem_walk_part? hp (Site.mem_walk_unwrap hu))
      · exact h.outside u (Site.mem_walk_part? hp (Site.mem_walk_unwrap hu))
      · exact h.outside' u (Site.mem_walk_part? hp' (Site.mem_walk_unwrap hu))

theorem spelledPart (h : InPlaceOf p x e t t') (hk : t.kind? = some k) (hc : k.isCompound = true)
    {r : Role} (hspelled : ∀ part : Node, part.role? = some r → part.isSpelledIn k = true) :
    (t.part? r).map Site.node = (t'.part? r).map Site.node := by
  cases h.stands with
  | use huse _ => cases (Node.isCompound_facts hk hc x).1.symm.trans huse
  | other _ hsub => exact hsub.spelledPart hk hc hspelled

theorem operator_eq (h : InPlaceOf p x e t t') (hk : t.kind? = some .binaryExpression ∨
    t.kind? = some .unaryExpression) : operatorText t = operatorText t' := by
  have hpart : (t.part? .operator).map Site.node = (t'.part? .operator).map Site.node := by
    rcases hk with hk | hk <;> refine h.spelledPart hk rfl fun part hrole => ?_ <;>
      · unfold Node.isSpelledIn
        rw [hrole]
  have htype (s : Site) :
      operatorText s = ((((s.part? .operator).map Site.node).map Node.typeName).getD "") := by
    rw [operatorText, Option.map_map]
    rfl
  rw [htype, htype, hpart]

end InPlaceOf

/-! ### Operators -/

theorem partValue_inPlace (he : e.IsClosedLiteral) (hrecur : Prepared p f x e recur)
    (h : InPlaceOf p x e t t') (hk : t.kind? = some k) (hc : k.isCompound = true)
    (hobject : k ≠ .object) {r : Role}
    (hspelled : ∀ part : Node, part.role? = some r → part.isSpelledIn k = false) :
    Until f (Outcome.Alike Eq) (partValue recur [(x, .expression e)] t r) (partValue recur [] t' r) := by
  unfold partValue
  rcases option_rel_cases (h.part he hk hc hobject hspelled) with
    ⟨hp, hp'⟩ | ⟨part, part', hp, hp', hpart⟩
  · rw [hp, hp']
    exact .parallel (.ok (.failure rfl))
  · rw [hp, hp']
    exact hrecur.inPlace _ _ hpart

theorem binaryValue_inPlace (he : e.IsClosedLiteral) (hrecur : Prepared p f x e recur)
    (h : InPlaceOf p x e t t') (hk : t.kind? = some .binaryExpression) :
    Until f (Outcome.Alike Eq) (binaryValue recur [(x, .expression e)] t) (binaryValue recur [] t') := by
  have hevaluated {r : Role} (hr : r ≠ .operator) (part : Node) (hrole : part.role? = some r) :
      part.isSpelledIn .binaryExpression = false := by
    unfold Node.isSpelledIn
    rw [hrole]
    cases r <;> first | rfl | exact absurd rfl hr
  unfold binaryValue
  rw [← h.operator_eq (.inl hk)]
  split
  · exact .parallel (.ok (.failure rfl))
  · next o _ =>
    refine (partValue_inPlace he hrecur h hk rfl (by decide) (hevaluated (by decide))).bind
      fun left left' hleft => ?_
    refine (partValue_inPlace he hrecur h hk rfl (by decide) (hevaluated (by decide))).bind
      fun right right' hright => ?_
    rw [← numberOf_alike hleft, ← numberOf_alike hright]
    refine .parallel ?_
    split
    · split
      · exact .ok (.failure rfl)
      · refine (Parallel.refl _).bind fun v _ hv => hv ▸ ?_
        split
        · exact finiteResult_alike _ _ _
        · exact .ok (.failure rfl)
    · exact .ok (.failure rfl)

theorem unaryValue_inPlace (he : e.IsClosedLiteral) (hrecur : Prepared p f x e recur)
    (h : InPlaceOf p x e t t') (hk : t.kind? = some .unaryExpression) :
    Until f (Outcome.Alike Eq) (unaryValue recur [(x, .expression e)] t) (unaryValue recur [] t') := by
  have hevaluated (part : Node) (hrole : part.role? = some .argument) :
      part.isSpelledIn .unaryExpression = false := by
    unfold Node.isSpelledIn
    rw [hrole]
  unfold unaryValue
  rw [← h.operator_eq (.inr hk)]
  split
  · exact .parallel (.ok (.failure rfl))
  · refine (partValue_inPlace he hrecur h hk rfl (by decide) hevaluated).bind fun v v' hv => ?_
    rw [← numberOf_alike hv]
    refine .parallel ?_
    split
    · exact (Parallel.refl _).bind fun v _ hv => hv ▸ finiteResult_alike _ _ _
    · exact .ok (.failure rfl)

/-! ### Members and names -/

theorem denoted_self {s : Site} (hself : s.unwrap = s) (hname : s.hasKind .identifier = false)
    (haccess : s.hasKind .memberExpression = false) : p.denoted? s = .ok (some s) := by
  unfold Project.denoted? deepestChain
  rw [denotedWithin_succ, hself]
  unfold longestChain chain
  rw [hname, haccess]
  rfl

/-- Nothing is read from what is no name, member, list or object. -/
theorem accessValue_unreadable {b : Bindings} {base : Site} (h : base.unwrap.isReadable = false)
    (hout : p.enums.lookup base.unwrap.text = none) (key : String) :
    p.accessValue recur b base key = .ok (.error (.unresolvedMember base.unwrap.text key)) := by
  simp only [Site.isReadable, Site.isNameUse, Bool.or_eq_false_iff] at h
  obtain ⟨⟨⟨⟨hname, -⟩, haccess⟩, hobject⟩, harray⟩ := h
  have hdeclared : p.declaredEnumMember? recur b base.unwrap key = .ok none := by
    rw [declaredEnumMember?, hname]
    rfl
  have hcontainer : p.container? b base.unwrap = .ok none := by
    rw [container_of_denoted (fun htrue => nomatch hname.symm.trans htrue)
      (denoted_self base.unwrap_unwrap hname haccess), Option.filter_some, hobject, harray]
    rfl
  have hentry : entryIn p b base.unwrap key = .ok none := by
    rw [entryIn, hcontainer]
    rfl
  rw [accessValue_eq, hdeclared]
  show entryIn p b base.unwrap key >>= entryValue p recur base key = _
  rw [hentry]
  show entryValue p recur base key none = _
  rw [entryValue, enumMember?, hout]
  rfl

/-- A member of the element itself. -/
theorem accessValue_element (he : e.IsClosedLiteral) (hrecur : Prepared p f x e recur)
    (hx : p.enums.lookup x = none) {base base' : Site} (hname : base.unwrap.hasKind .identifier = true)
    (htext : base.unwrap.text = x) (hnode : base'.unwrap.node = e.unwrap.node)
    (hout : p.enums.lookup base'.unwrap.text = none) (key : String) :
    Until f (Outcome.Alike Eq) (p.accessValue recur [(x, .expression e)] base key)
      (p.accessValue recur [] base' key) := by
  have hlookup : List.lookup base.unwrap.text [(x, Bound.expression e)] = some (.expression e) := by
    rw [htext, List.lookup_cons, beq_self_eq_true]
  have hcopied : e.unwrap.Copied base'.unwrap := ⟨hnode.symm, he.closed.unwrap⟩
  have hnoName : base'.unwrap.hasKind .identifier = false := by
    have hnone := he.closed.unwrap.not_isNameUse
    rw [Site.isNameUse, Bool.or_eq_false_iff] at hnone
    rw [Site.hasKind, hnode]
    exact hnone.1
  have hdeclared : p.declaredEnumMember? recur [(x, .expression e)] base.unwrap key = .ok none := by
    rw [declaredEnumMember?, hname, hlookup]
    rfl
  have hdeclared' : p.declaredEnumMember? recur [] base'.unwrap key = .ok none := by
    rw [declaredEnumMember?, hnoName]
    rfl
  have hcontainer : p.container? [(x, .expression e)] base.unwrap = p.container? [] e.unwrap := by
    have hnone : e.unwrap.hasKind .identifier = false := by
      rw [Site.hasKind, ← hnode]
      exact hnoName
    unfold container?
    rw [if_pos hname, if_neg (by rw [hnone]; decide), hlookup]
    dsimp only [bind, Except.bind]
    rw [denoted_unwrap]
  have hentries : Parallel (Option.Rel (Unwrapped Site.Copied))
      (entryIn p [(x, .expression e)] base.unwrap key) (entryIn p [] base'.unwrap key) := by
    have hread : Parallel (Option.Rel (Unwrapped Site.Copied)) (entryIn p [] e.unwrap key)
        (entryIn p [] base'.unwrap key) :=
      (Site.Copied.correspondence p).entryIn hcopied .nil
    unfold entryIn at hread ⊢
    rw [hcontainer]
    exact hread
  rw [accessValue_eq, accessValue_eq, hdeclared, hdeclared']
  refine .parallel (hentries.bind fun entry entry' hentry => ?_)
  cases hentry with
  | some hcopy => exact hrecur.copied _ _ _ _ hcopy .nil
  | none =>
    unfold entryValue enumMember?
    dsimp only
    rw [htext, hx, hout]
    exact .ok (.failure rfl)

theorem accessValue_unwrap (b : Bindings) (base : Site) (key : String) :
    p.accessValue recur b base.unwrap key = p.accessValue recur b base key := by
  unfold Project.accessValue
  rw [Site.unwrap_unwrap]

/-- A member of the element, of something else, or of nothing that can be read. -/
theorem accessValue_inPlace (he : e.IsClosedLiteral) (hrecur : Prepared p f x e recur)
    (hx : p.enums.lookup x = none) {base base' : Site} (h : Unwrapped (InPlaceOf p x e) base base')
    (hreads : base.unwrap.hasKind .identifier = true ∧ base.unwrap.text = x ∨
      (∀ name, base.unwrap.Mentions name → name.text ≠ x) ∨ base.unwrap.isReadable = false)
    (hout : base.unwrap.isNameUse = false → p.enums.lookup base.unwrap.text = none)
    (hout' : base'.unwrap.isNameUse = false → p.enums.lookup base'.unwrap.text = none) (key : String) :
    Until f (Outcome.Alike Eq) (p.accessValue recur [(x, .expression e)] base key)
      (p.accessValue recur [] base' key) := by
  have hstands : base.unwrap.Stands (e.insteadOf x) base'.unwrap := h.stands
  have hplace : (Site.core [] e.node).2 = e.unwrap.node := Site.core_snd _ _ _
  rcases hreads with ⟨hname, htext⟩ | hfree | hunreadable
  · have huse : base.unwrap.node.isUseOf x = true := by
      rw [Node.isUseOf, show base.unwrap.node.hasKind .identifier = true from hname,
        show base.unwrap.node.text = x from htext, beq_self_eq_true]
      rfl
    cases hstands with
    | other hnot _ => cases huse.symm.trans hnot
    | use _ hnode =>
      have hnode' : base'.unwrap.node = e.unwrap.node := hnode.trans hplace
      refine accessValue_element he hrecur hx hname htext hnode' (hout' ?_) key
      have hnone := he.closed.unwrap.not_isNameUse
      rwa [Site.isNameUse, Site.hasKind, Site.hasKind, hnode']
  · cases hstands with
    | use huse _ =>
      have hself := Bool.and_eq_true_iff.1 huse
      exact absurd (eq_of_beq hself.2) (hfree base.unwrap (.self hself.1))
    | other _ hsub =>
      have hmoved : base.unwrap.Moved base'.unwrap := hsub.moved hfree
      have hfree' : p.accessValue recur [(x, .expression e)] base key =
          p.accessValue recur [] base key := by
        rw [← accessValue_unwrap, ← accessValue_unwrap []]
        exact accessValue_congr (agree_of_free hfree)
      rw [hfree']
      exact .parallel ((Site.Moved.correspondence p).accessValue hrecur.moved hmoved .nil)
  · cases hstands with
    | use huse _ =>
      have hname : base.unwrap.isNameUse = true := (Bool.and_eq_true_iff.1 huse).1
      rw [Site.isReadable, hname] at hunreadable
      cases hunreadable
    | other hnot hsub =>
      have hkind (k : Kind) : base'.unwrap.hasKind k = base.unwrap.hasKind k := by
        have heq : base.unwrap.node.kind? = base'.unwrap.node.kind? := hsub.kind_eq hnot
        rw [Site.hasKind, Site.hasKind, Node.hasKind, Node.hasKind, heq]
      have hunreadable' : base'.unwrap.isReadable = false := by
        rw [← hunreadable]
        simp only [Site.isReadable, Site.isNameUse, hkind]
      have hnoName {s : Site} (hs : s.isReadable = false) : s.isNameUse = false := by
        cases hname : s.isNameUse with
        | false => rfl
        | true =>
          rw [Site.isReadable, hname] at hs
          cases hs
      rw [accessValue_unreadable hunreadable (hout (hnoName hunreadable)),
        accessValue_unreadable hunreadable' (hout' (hnoName hunreadable'))]
      exact .parallel (.ok (.failure rfl))

/-- Everything that is read from the base of a member access or an element access. -/
theorem InPlaceOf.accessValue (he : e.IsClosedLiteral) (hrecur : Prepared p f x e recur)
    (hx : p.enums.lookup x = none) (h : InPlaceOf p x e t t') {base base' : Site}
    (hbase : t.part? .object = some base) (hbase' : t'.part? .object = some base')
    (hrel : Unwrapped (InPlaceOf p x e) base base') (key : String) :
    Until f (Outcome.Alike Eq) (p.accessValue recur [(x, .expression e)] base key)
      (p.accessValue recur [] base' key) :=
  accessValue_inPlace he hrecur hx hrel (h.reads t t.mem_walk_self base hbase)
    (h.outside t t.mem_walk_self base hbase) (h.outside' t' t'.mem_walk_self base' hbase') key

theorem memberValue_inPlace (he : e.IsClosedLiteral) (hrecur : Prepared p f x e recur)
    (hx : p.enums.lookup x = none) (h : InPlaceOf p x e t t')
    (hk : t.kind? = some .memberExpression) :
    Until f (Outcome.Alike Eq) (p.memberValue recur [(x, .expression e)] t) (p.memberValue recur [] t') := by
  have hobject (part : Node) (hrole : part.role? = some .object) :
      part.isSpelledIn .memberExpression = false := by
    unfold Node.isSpelledIn
    rw [hrole]
  have hproperty : (t.part? .property).map Site.text = (t'.part? .property).map Site.text := by
    have hnodes := h.spelledPart hk rfl (r := .property) fun part hrole => by
      unfold Node.isSpelledIn
      rw [hrole]
    have htext (o : Option Site) : o.map Site.text = (o.map Site.node).map Node.text := by
      rw [Option.map_map]
      rfl
    rw [htext, htext, hnodes]
  unfold Project.memberValue Site.accessParts?
  rcases option_rel_cases (h.part he hk rfl (by decide) hobject) with
    ⟨ho, ho'⟩ | ⟨base, base', ho, ho', hbase⟩
  · rw [ho, ho']
    exact .parallel (.ok (.failure rfl))
  · rw [ho, ho']
    cases hp : t.part? .property <;> cases hp' : t'.part? .property <;> rw [hp, hp'] at hproperty
    · exact .parallel (.ok (.failure rfl))
    · cases hproperty
    · cases hproperty
    · dsimp only
      rw [← Option.some.inj hproperty]
      exact h.accessValue he hrecur hx ho ho' hbase _

theorem elementValue_inPlace (he : e.IsClosedLiteral) (hrecur : Prepared p f x e recur)
    (hx : p.enums.lookup x = none) (h : InPlaceOf p x e t t')
    (hk : t.kind? = some .subscriptExpression) :
    Until f (Outcome.Alike Eq) (p.elementValue recur [(x, .expression e)] t)
      (p.elementValue recur [] t') := by
  unfold Project.elementValue
  refine (partValue_inPlace he hrecur h hk rfl (by decide) fun _ _ => rfl).bind fun o o' ho => ?_
  cases ho with
  | failure => exact .parallel (.ok (.failure rfl))
  | value hv =>
    rename_i v v'
    obtain rfl : v = v' := hv
    rcases option_rel_cases (h.part he hk rfl (by decide) (r := .object) fun _ _ => rfl) with
      ⟨hp, hp'⟩ | ⟨base, base', hp, hp', hbase⟩
    · rw [hp, hp']
      cases v <;> exact .parallel (.ok (.failure rfl))
    · rw [hp, hp']
      cases v
      case text key => exact h.accessValue he hrecur hx hp hp' hbase key
      all_goals
        dsimp only
        split
        · exact Until.same_bind _ fun key => h.accessValue he hrecur hx hp hp' hbase key
        · exact .parallel (.ok (.failure rfl))

/-- A name that is not bound, in a place beside. -/
theorem nameValue_moved (hmoved : t.Moved t') (htext : t.text ≠ x) :
    p.nameValue recur [(x, .expression e)] t = p.nameValue recur [] t' := by
  have hne : (t.text == x) = false := beq_eq_false_iff_ne.2 htext
  have hsame : t.text = t'.text := congrArg Node.text hmoved.1
  unfold Project.nameValue
  rw [List.lookup_cons, hne, hmoved.2.initializer hsame, ← hsame]

/-! ### Expressions -/

theorem hasSubstitutions_substituted {θ : Substitution} (h : t.Substituted θ t')
    (hk : t.kind? = some .templateString) (hgaps : t.hasSubstitutions = true) :
    t'.hasSubstitutions = true := by
  obtain ⟨file, above, node⟩ := t
  have huse : node.isUseOf θ.name = false := by
    rw [Node.isUseOf, Node.hasKind, Node.hasKind, show node.kind? = some .templateString from hk]
    rfl
  cases node with
  | token r b text => cases hgaps
  | leaf k r b text => cases hgaps
  | tree k r parts =>
    obtain rfl : k = .templateString := Option.some.inj hk
    have hgaps' : parts.any (·.hasKind .templateSubstitution) = true := hgaps
    have hopen : (Node.tree .templateString r parts).isOpaque θ.name = false := by
      have hword : (Node.tree .templateString r parts).isWord =
          !parts.any (·.hasKind .templateSubstitution) := rfl
      rw [Node.isOpaque, hword, hgaps']
      rfl
    rw [Site.hasSubstitutions, h.node, Substitution.apply_tree huse hopen]
    show (parts.map (θ.applyPart .templateString)).any _ = true
    rw [List.any_map, ← hgaps']
    congr 1
    funext part
    rw [Function.comp, Substitution.applyPart_of_ne (by decide) (by rfl),
      Substitution.apply_hasKind (by decide)]

theorem alike_refl {α : Type} (answer : Attempt (Outcome α)) : Parallel (Outcome.Alike Eq) answer answer :=
  (Parallel.refl answer).mono fun o _ ho => ho ▸ by
    cases o with
    | ok v => exact .value rfl
    | error f => exact .failure rfl

/-- A use of the name is evaluated as what the name is bound to. -/
theorem valueOf_use (huse : t.node.isUseOf x = true) :
    p.valueOf recur [(x, .expression e)] t = recur e [] := by
  obtain ⟨hname, htext⟩ := Bool.and_eq_true_iff.1 huse
  rw [valueOf_of_isNameUse hname, nameValue, show t.text = x from eq_of_beq htext, List.lookup_cons,
    beq_self_eq_true]

/-- Other names are evaluated as they are without bindings. -/
theorem nameValue_other (hnot : t.node.isUseOf x = false) (hname : t.isNameUse = true)
    (hmoved : t.Moved t') : p.nameValue recur [(x, .expression e)] t = p.nameValue recur [] t' := by
  refine nameValue_moved hmoved fun heq => ?_
  have huse : t.node.isUseOf x = true := Bool.and_eq_true_iff.2 ⟨hname, beq_iff_eq.2 heq⟩
  cases huse.symm.trans hnot

section Words

variable {θ : Substitution} (h : t.Substituted θ t') (hnot : t.node.isUseOf θ.name = false)

include h hnot

/-- Words other than the name keep their spelling. -/
theorem moved_of_isWord (hword : t.node.isWord = true) : t.Moved t' :=
  h.moved_of_isOpaque hnot (by rw [Node.isOpaque, hword, Bool.true_or])

theorem moved_of_wordKind (hk : t.kind? = some k) (hword : Node.wordKinds.contains k = true) :
    t.Moved t' := by
  refine moved_of_isWord h hnot ?_
  rw [Node.isWord, show t.node.kind? = some k from hk, Option.any_some, hword, Bool.true_or]

/-- A template has gaps on both sides, or it is spelled the same. -/
theorem template_alike (hk : t.kind? = some .templateString) :
    t.hasSubstitutions = true ∧ t'.hasSubstitutions = true ∨ t.Moved t' := by
  cases hgaps : t.hasSubstitutions with
  | true => exact .inl ⟨rfl, hasSubstitutions_substituted h hk hgaps⟩
  | false =>
    refine .inr (moved_of_isWord h hnot ?_)
    rw [Node.isWord, show t.node.hasKind .templateString = true from Site.hasKind_iff.2 hk,
      show t.node.parts.any (·.hasKind .templateSubstitution) = false from hgaps]
    exact Bool.or_true _

end Words

/-- A text is read off its spelling. -/
theorem stringValue_moved (h : t.Moved t') : t.stringValue = t'.stringValue := by
  rw [Site.stringValue, Site.stringValue, Site.literalBody, Site.literalBody,
    show t.text = t'.text from congrArg Node.text h.1]

/-- One step answers alike, if the steps it asks for do. -/
theorem valueOf_inPlace (he : e.IsClosedLiteral) (hrecur : Prepared p f x e recur)
    (hx : p.enums.lookup x = none) (h : InPlaceOf p x e t t') :
    Until f (Outcome.Alike Eq) (p.valueOf recur [(x, .expression e)] t) (p.valueOf recur [] t') := by
  have hplace : (Site.core [] e.node).2 = e.unwrap.node := Site.core_snd _ _ _
  cases h.stands with
  | use huse hnode =>
    have hbound : p.valueOf recur [(x, .expression e)] t = recur e [] := valueOf_use huse
    rw [hbound]
    exact hrecur.element t' (hnode.trans hplace)
  | other hnot hsub =>
    unfold Project.valueOf
    rw [← hsub.kind_eq hnot]
    split
    · next hk =>
      rw [stringValue_moved (moved_of_wordKind hsub hnot hk rfl)]
      exact .parallel (alike_refl _)
    · next hk =>
      rcases template_alike hsub hnot hk with ⟨hgaps, hgaps'⟩ | hsame
      · rw [hgaps, hgaps']
        exact .parallel (alike_refl _)
      · rw [stringValue_moved hsame, Site.hasSubstitutions, Site.hasSubstitutions, hsame.1]
        exact .parallel (alike_refl _)
    · next hk =>
      rw [numeralValue, numeralValue, show t.text = t'.text from
        congrArg Node.text (moved_of_wordKind hsub hnot hk rfl).1]
      exact .parallel (alike_refl _)
    · exact .parallel (.ok (.value rfl))
    · exact .parallel (.ok (.value rfl))
    · next hk =>
      have hname := Site.isNameUse_of_identifier (Site.hasKind_iff.2 hk)
      exact .parallel (nameValue_other hnot hname (moved_of_wordKind hsub hnot hk rfl) ▸ alike_refl _)
    · next hk =>
      have hname := Site.isNameUse_of_shorthand (Site.hasKind_iff.2 hk)
      exact .parallel (nameValue_other hnot hname (moved_of_wordKind hsub hnot hk rfl) ▸ alike_refl _)
    · next hk => exact memberValue_inPlace he hrecur hx h hk
    · next hk => exact elementValue_inPlace he hrecur hx h hk
    · next hk => exact binaryValue_inPlace he hrecur h hk
    · next hk => exact unaryValue_inPlace he hrecur h hk
    · exact .parallel (.ok (.failure rfl))

/-- However deep, an expression comes under the binding to what it comes to with the element in place of
the name, unless the bound is met. -/
theorem evaluateOver_inPlace (he : e.IsClosedLiteral) (hx : p.enums.lookup x = none) (f : Fault)
    (depth : Nat) : ∀ s s', Unwrapped (InPlaceOf p x e) s s' →
      Until f (Outcome.Alike Eq) (p.evaluateOver (stopping f) depth s [(x, .expression e)])
        (p.evaluateOver (stopping f) depth s' []) := by
  induction depth with
  | zero => exact fun _ _ _ => .stopped
  | succ depth ih =>
    have hprepared : Prepared p f x e (p.evaluateOver (stopping f) depth) :=
      { moved := (Site.Moved.correspondence p).evaluateOver f depth
        copied := (Site.Copied.correspondence p).evaluateOver f depth
        element := fun _ ht => until_literal he ht depth
        inPlace := ih }
    exact fun s s' h => valueOf_inPlace he hprepared hx h

/-- **Bindings are substitution.** Above the depth bound, an expression under a binding has the value that
it has with the element in place of the name, or none for a reason of the same kind. -/
theorem evaluate_inPlace (he : e.IsClosedLiteral) (hx : p.enums.lookup x = none) {s s' : Site}
    (h : Unwrapped (InPlaceOf p x e) s s') (habove : p.StaysAbove s [(x, .expression e)])
    (habove' : p.StaysAbove s' []) :
    Parallel (Outcome.Alike Eq) (p.evaluate s [(x, .expression e)]) (p.evaluate s' []) :=
  habove.parallel habove' fun f => evaluateOver_inPlace he hx f _ s s' h

end InPlace
end SettingsHarvest
