import SettingsHarvest.Proofs.EvaluationBound
import SettingsHarvest.Proofs.Evidence
import SettingsHarvest.Proofs.EvidenceCorrespondence

/-! Constants under a second name.

After `const Y = X` the name `Y` denotes what `X` denotes and has the value `X` has, as long as neither
the evaluation nor the chain of names behind `Y` is cut off (`IsAlias.denoted_eq`,
`IsAlias.constant_eq`). The evidence of a default is gathered in part by one look behind a name
and in part by following it to the end, so `Y` shows all that `X` shows but for what the initializer of
`X` is seen to be: a list of texts, a list of objects, and the type written around it
(`DeclaresAlias.evidence`). -/
namespace SettingsHarvest
open Syntax Project

/-! ### Chains that come to an end -/

namespace Project

variable {p : Project} {s : Site}

/-- A chain with another answer where its steps run out. -/
def chainOver (p : Project) (object? bound : Site → Attempt (Option Site)) : Nat → Site →
    Attempt (Option Site)
  | 0 => bound
  | steps + 1 => fun s => p.follow object? s >>= Followed.resume (p.chainOver object? bound steps)

theorem chain_eq (p : Project) (object? : Site → Attempt (Option Site)) (steps : Nat) :
    p.chain object? steps = p.chainOver object? (fun _ => .ok none) steps := by
  induction steps with
  | zero => rfl
  | succ steps ih =>
    funext s
    rw [chain_succ, chainOver, ih]

theorem chainOver_add (object? bound : Site → Attempt (Option Site)) (more steps : Nat) :
    p.chainOver object? (p.chainOver object? bound more) steps =
      p.chainOver object? bound (steps + more) := by
  induction steps with
  | zero => rw [Nat.zero_add, chainOver]
  | succ steps ih => rw [Nat.add_right_comm, chainOver, chainOver, ih]

/-- The objects that members in a chain are read from. -/
def objectBelow (p : Project) : Site → Attempt (Option Site) := p.objectWithin (deepestChain - 1)

/-- Following an expression comes to an end before the steps of its chain run out: whatever stood there,
it would come to the same. -/
def EndsAbove (p : Project) (s : Site) : Prop :=
  ∀ bound, p.chainOver p.objectBelow bound longestChain s.unwrap = p.denoted? s

theorem denoted_eq (p : Project) (s : Site) :
    p.denoted? s = p.chainOver p.objectBelow (fun _ => .ok none) longestChain s.unwrap := by
  rw [← chain_eq]
  rfl

/-- A chain that has an answer with a fault where its steps run out does not get there. -/
theorem EndsAbove.of_answer {f : Fault} {found : Option Site}
    (h : p.chainOver p.objectBelow (fun _ => .error f) longestChain s.unwrap = .ok found) :
    p.EndsAbove s := by
  have hanswer (bound : Site → Attempt (Option Site)) : ∀ (steps : Nat) (t : Site),
      p.chainOver p.objectBelow (fun _ => .error f) steps t = .ok found →
      p.chainOver p.objectBelow bound steps t = .ok found := by
    intro steps
    induction steps with
    | zero => exact fun _ h => nomatch h
    | succ steps ih =>
      intro t h
      rw [chainOver] at h ⊢
      obtain ⟨step, hstep, h⟩ := bind_eq_ok.1 h
      refine bind_eq_ok.2 ⟨step, hstep, ?_⟩
      cases step with
      | toward next => exact ih next h
      | ended => exact h
  intro bound
  rw [hanswer bound _ _ h, denoted_eq, hanswer _ _ _ h]

end Project

/-! ### Names of variables -/

namespace Project

/-- A plain name of a variable with an initializer. -/
structure NamesVariable (p : Project) (name : Site) (d : Declaration) (init : Site) : Prop where
  isName : name.hasKind .identifier = true
  isUsable : name.text ≠ "undefined"
  declared : p.declaration? name = .ok (some d)
  initialized : d.binding = .variable (some init)

namespace NamesVariable

variable {p : Project} {name init : Site} {d : Declaration}

theorem unwrap_eq (h : p.NamesVariable name d init) : name.unwrap = name :=
  Site.unwrap_eq_self h.isName rfl

theorem initializer_eq (h : p.NamesVariable name d init) : p.initializer? name = .ok (some init) := by
  rw [initializer?, h.declared]
  show Except.ok d.value? = .ok (some init)
  rw [Declaration.value?, h.initialized]

theorem hasKind_eq (h : p.NamesVariable name d init) (k : Kind) : name.hasKind k = (k == .identifier) := by
  rw [Site.hasKind, Node.hasKind, eq_of_beq h.isName]
  cases k <;> rfl

theorem isNull_eq (h : p.NamesVariable name d init) : name.isNull = false := by
  unfold Site.isNull
  rw [h.unwrap_eq]
  dsimp only
  rw [h.hasKind_eq, h.hasKind_eq, h.hasKind_eq, beq_eq_false_iff_ne.2 h.isUsable]
  rfl

theorem isRenderer_eq (h : p.NamesVariable name d init) : name.isRenderer = false := by
  have hkind : name.kind? = some .identifier := Site.hasKind_iff.1 h.isName
  rw [Site.isRenderer, Site.isFunction, hkind, h.hasKind_eq, h.hasKind_eq, h.hasKind_eq]
  rfl

theorem isStructural_eq (h : p.NamesVariable name d init) : name.isStructural = false := by
  simp only [Site.isStructural, h.isRenderer_eq, h.hasKind_eq]
  rfl

/-- The first step from the name leads to its initializer. -/
theorem chainOver_eq (h : p.NamesVariable name d init) (bound : Site → Attempt (Option Site)) (steps : Nat) :
    p.chainOver p.objectBelow bound (steps + 1) name = p.chainOver p.objectBelow bound steps init.unwrap := by
  have hfollow : p.follow p.objectBelow name = .ok (.toward init.unwrap) := by
    unfold follow
    rw [if_pos h.isName, h.initializer_eq]
    rfl
  rw [chainOver]
  dsimp only
  rw [hfollow]
  rfl

/-- The name has the value of its initializer, one step deeper. -/
theorem evaluateOver_eq (h : p.NamesVariable name d init) (bound : Evaluator) (depth : Nat) :
    valueOf? <$> p.evaluateOver bound (depth + 1) name [] =
      valueOf? <$> p.evaluateOver bound depth init [] := by
  have hvalue : p.evaluateOver bound (depth + 1) name [] =
      p.nameValue (p.evaluateOver bound depth) [] name := by
    rw [evaluateOver]
    dsimp only
    rw [h.unwrap_eq, Project.valueOf, Site.hasKind_iff.1 h.isName]
  rw [hvalue, nameValue]
  dsimp only [List.lookup]
  rw [h.initializer_eq]
  dsimp only [bind, Except.bind]
  cases p.evaluateOver bound depth init [] with
  | error f => rfl
  | ok o => cases o <;> rfl

end NamesVariable

/-- A name that is declared, without a type, as another name of a variable. -/
structure IsAlias (p : Project) (name other : Site) (second d : Declaration) (init : Site) : Prop where
  names : p.NamesVariable name second other
  untyped : second.site.node.part? .type = none
  written : second.site.part? .value = some other
  other : p.NamesVariable other d init

namespace IsAlias

variable {p : Project} {x y other init : Site} {second d : Declaration}

/-- Both names denote the same. -/
theorem denoted_eq (hx : p.NamesVariable x d init) (hy : p.IsAlias y other second d init)
    (hends : p.EndsAbove y) : p.denoted? y = p.denoted? x := by
  -- the chain behind the alias is one step longer, and may be cut off one step later
  have hlonger := hends (p.chainOver p.objectBelow (fun _ => .ok none) 1)
  rw [hy.names.unwrap_eq, chainOver_add] at hlonger
  rw [← hlonger, Project.denoted_eq p x, hx.unwrap_eq, longestChain, hy.names.chainOver_eq,
    hy.other.unwrap_eq, hy.other.chainOver_eq, hx.chainOver_eq]

/-- Both names have the same value, or none. -/
theorem constant_eq (hx : p.NamesVariable x d init) (hy : p.IsAlias y other second d init)
    (hstays : p.StaysAbove y []) : valueOf? <$> p.evaluate y [] = valueOf? <$> p.evaluate x [] := by
  let bottom : Evaluator := fun s _ => Evaluation.fail (.tooDeep s.text)
  rw [← hstays (p.evaluateOver bottom 1), evaluateOver_add, evaluate, evaluateWithin_eq, evaluationDepth,
    hy.names.evaluateOver_eq, hy.other.evaluateOver_eq, hx.evaluateOver_eq]

end IsAlias
end Project

/-! ### Evidence of names -/

/-- Evidence of a name without what one look behind the name shows. -/
def Evidence.behindAlias (e : Evidence) (y : Site) : Evidence :=
  { e with initializer := some y, stringArray := false, objectArray := false, declaredShape := none }

/-- No type is asserted of a plain name. -/
theorem assertedShape_eq_none {n : Node} (h : n.hasKind .identifier = true) : n.assertedShape? = none := by
  cases n with
  | token | leaf => rfl
  | tree k r parts =>
    obtain rfl : k = .identifier := Option.some.inj (eq_of_beq h)
    unfold Node.assertedShape?
    rfl

namespace Project

/-- What the types around a variable say. -/
def statedShape? (d : Declaration) (init : Site) : Option TypeShape :=
  match d.site.node.part? .type with
  | some type => type.typeShape?
  | none => init.declaredShape?

/-- The shape of a name. -/
def shapeOfName (p : Project) (name : Site) (literal : Option Value) : Attempt Shape :=
  if literal.isSome then .ok .literal else p.denotedShape name

/-- What a default shows that is a name of a variable. -/
def nameEvidence (p : Project) (name : Site) (d : Declaration) (init : Site) : Attempt Evidence := do
  let literal ← valueOf? <$> p.evaluate name []
  let isArray ← (·.any (·.hasKind .array)) <$> p.denoted? name
  let shape ← p.shapeOfName name literal
  return ⟨some name, literal, shape, init.isStringArray, init.isObjectArray, false, true, true, isArray,
    false, if literal.isNone then statedShape? d init else none⟩

variable {p : Project} {name init : Site} {d : Declaration}

theorem NamesVariable.inspectInitializer_eq (h : p.NamesVariable name d init)
    (hbare : name.declaredShape? = none) : p.inspectInitializer name = p.nameEvidence name d init := by
  have hliteral : p.scalarLiteral? name = valueOf? <$> p.evaluate name [] := by
    unfold scalarLiteral?
    rw [h.unwrap_eq, h.isStructural_eq, h.isNull_eq]
    rfl
  have hisName : name.isName = true := by rw [Site.isName, h.isName, h.isNull_eq]; rfl
  have hknown : p.isDeclaredName name = .ok true := by
    rw [isDeclaredName, if_pos hisName, h.declared]
    rfl
  have hlist : p.isListName name = (·.any (·.hasKind .array)) <$> p.denoted? name := by
    rw [isListName, if_pos hisName]
    rfl
  have hshape (literal : Option Value) : p.shapeOf name literal = p.shapeOfName name literal := by
    unfold shapeOf shapeOfName
    rw [h.unwrap_eq]
    simp only [h.isNull_eq, h.isRenderer_eq, h.hasKind_eq]
    cases literal <;> rfl
  have hstrings : p.isStringArrayDefault name = .ok init.isStringArray := by
    rw [isStringArrayDefault, h.unwrap_eq, if_pos h.isName, h.initializer_eq]
    rfl
  have hobjects : p.isObjectArrayDefault name = .ok init.isObjectArray := by
    unfold isObjectArrayDefault
    simp only [h.unwrap_eq, h.hasKind_eq, h.initializer_eq]
    rfl
  have hempty : p.isEmptyTypedArrayDefault name = .ok false := by
    unfold isEmptyTypedArrayDefault
    simp only [h.unwrap_eq, h.hasKind_eq]
    rfl
  have htype (literal : Option Value) : p.shapeUnlessConstant literal name =
      .ok (if literal.isNone then statedShape? d init else none) := by
    obtain ⟨n, site, binding⟩ := d
    obtain rfl : binding = .variable (some init) := h.initialized
    unfold shapeUnlessConstant declaredShapeOf statedShape?
    rw [hbare, h.unwrap_eq, if_pos h.isName, h.declared]
    cases literal with
    | some v => rfl
    | none =>
      dsimp only [bind, Except.bind, pure, Except.pure]
      cases site.node.part? .type <;> rfl
  rw [Project.inspectInitializer_eq, nameEvidence, hliteral, h.unwrap_eq, hknown, hlist, hisName]
  simp only [hshape, hstrings, hobjects, hempty, htype]
  rfl

/-- What a second name shows. -/
theorem IsAlias.nameEvidence_eq {x y other init : Site} {second d : Declaration}
    (hx : p.NamesVariable x d init) (hy : p.IsAlias y other second d init) (hends : p.EndsAbove y)
    (hstays : p.StaysAbove y []) :
    p.nameEvidence y second other = (·.behindAlias y) <$> p.nameEvidence x d init := by
  have hdenoted := IsAlias.denoted_eq hx hy hends
  have hshape : p.shapeOfName y = p.shapeOfName x := by
    funext literal
    rw [shapeOfName, shapeOfName, denotedShape, denotedShape, hdenoted]
  have harray : other.unwrap.hasKind .array = false := by rw [hy.other.unwrap_eq, hy.other.hasKind_eq]; rfl
  have htype : statedShape? second other = none := by
    obtain ⟨part, hpart, rfl⟩ := Option.map_eq_some_iff.1 hy.written
    have hparent : (second.site.inside part).parent? = some second.site := rfl
    have hasserted : (second.site.inside part).node.assertedShape? = none :=
      assertedShape_eq_none hy.other.isName
    rw [statedShape?, hy.untyped]
    dsimp only
    rw [Site.declaredShape?, hasserted, hparent]
    dsimp only
    rw [hy.untyped]
    split <;> rfl
  rw [nameEvidence, nameEvidence, IsAlias.constant_eq hx hy hstays, hdenoted, hshape,
    isStringArray_eq_false harray, isObjectArray_eq_false harray, htype]
  cases valueOf? <$> p.evaluate x [] with
  | error f => rfl
  | ok literal =>
    cases p.denoted? x with
    | error f => rfl
    | ok found =>
      dsimp only [bind, Except.bind, Functor.map, Except.map]
      cases p.shapeOfName x literal with
      | error f => rfl
      | ok shape => cases literal <;> rfl

/-! ### Shapes of names -/

theorem callShape_mem {call : Site} {shape : Shape} (h : p.callShape? call = .ok (some shape)) :
    shape ∈ [Shape.array, .object] := by
  have hbuiltin (callee : String) (hs : builtinShape? callee = some shape) :
      shape ∈ [Shape.array, .object] := by
    unfold builtinShape? at hs
    dsimp only at hs
    split at hs
    · split at hs
      · cases hs; decide
      · split at hs
        · cases hs; decide
        · cases hs
    · split at hs
      · cases hs; decide
      · cases hs
  have hcallee : (call.callee?.bind fun c => builtinShape? c.text) = some shape →
      shape ∈ [Shape.array, .object] := fun hs => by
    obtain ⟨c, -, hs⟩ := Option.bind_eq_some_iff.1 hs
    exact hbuiltin _ hs
  obtain ⟨body, -, h⟩ := bind_eq_ok.1 h
  cases body with
  | none => exact hcallee (pure_eq_ok.1 h)
  | some body =>
    have h := pure_eq_ok.1 h
    split at h
    · cases h; decide
    · split at h
      · cases h; decide
      · exact hcallee h

theorem denotedShape_mem {shape : Shape} (h : p.denotedShape name = .ok shape) :
    shape ∈ [Shape.unresolved, .call, .array, .object, .renderer] := by
  obtain ⟨found, -, h⟩ := bind_eq_ok.1 h
  cases found with
  | none => cases pure_eq_ok.1 h; decide
  | some found =>
    dsimp only at h
    split at h
    · obtain ⟨answer, hanswer, h⟩ := bind_eq_ok.1 h
      cases pure_eq_ok.1 h
      cases answer with
      | none => decide
      | some shape =>
        rcases List.mem_pair.1 (callShape_mem hanswer) with rfl | rfl <;> decide
    · split at h
      · cases pure_eq_ok.1 h; decide
      · split at h
        · cases pure_eq_ok.1 h; decide
        · split at h <;> (cases pure_eq_ok.1 h; decide)

/-- A default without a value is seen to be of some other sort. -/
theorem shapeOf_mem {shape : Shape} (h : p.shapeOf init none = .ok shape) :
    shape ∈ [Shape.null, .array, .object, .renderer, .call, .unresolved, .other] := by
  rw [shapeOf, if_neg (by decide)] at h
  split at h
  · cases pure_eq_ok.1 h
    decide
  dsimp only at h
  split at h
  · cases pure_eq_ok.1 h
    decide
  split at h
  · cases pure_eq_ok.1 h
    decide
  split at h
  · cases pure_eq_ok.1 h
    decide
  split at h
  · split at h
    · cases pure_eq_ok.1 h
      decide
    · obtain ⟨answer, hanswer, h⟩ := bind_eq_ok.1 h
      cases pure_eq_ok.1 h
      cases answer with
      | none => decide
      | some shape => rcases List.mem_pair.1 (callShape_mem hanswer) with rfl | rfl <;> decide
  split at h
  · have hsubset : [Shape.unresolved, .call, .array, .object, .renderer] ⊆
        [Shape.null, .array, .object, .renderer, .call, .unresolved, .other] := by decide
    exact hsubset (denotedShape_mem h)
  · cases pure_eq_ok.1 h
    decide

/-- A variable with a list for an initializer denotes that list. -/
theorem NamesVariable.denoted_array (h : p.NamesVariable name d init)
    (harray : init.unwrap.hasKind .array = true) : p.denoted? name = .ok (some init.unwrap) := by
  have hkind (k : Kind) : init.unwrap.hasKind k = (k == .array) := by
    rw [Site.hasKind, Node.hasKind, eq_of_beq harray]
    cases k <;> rfl
  have hfollow : p.follow p.objectBelow init.unwrap = .ok (.ended (some init.unwrap)) := by
    unfold follow
    simp only [hkind]
    rfl
  rw [Project.denoted_eq, h.unwrap_eq, longestChain, h.chainOver_eq, chainOver]
  dsimp only
  rw [hfollow]
  rfl

/-- What is known of the evidence of a name, whatever it shows. -/
structure OfName (e : Evidence) : Prop where
  identifier : e.identifier = true
  identifierDeclared : e.identifierDeclared = true
  emptyTypedArray : e.emptyTypedArray = false
  getter : e.getter = false
  emptyArray : e.isEmptyArray = false
  noCall : (e.initializer.map Site.unwrap).filter (·.hasKind .callExpression) = none
  constant : e.literal.isSome = true → e.Constant
  shape : e.literal = none → e.shape ∈ [Shape.unresolved, .call, .array, .object, .renderer]
  objectArray : e.objectArray = true → e.literal = none → e.shape = .array ∧ e.identifierIsArray = true

theorem NamesVariable.ofName {e : Evidence} (h : p.NamesVariable name d init)
    (hbare : name.declaredShape? = none) (he : p.nameEvidence name d init = .ok e) : OfName e := by
  have hfrom : p.InspectedFrom name e :=
    inspectedFrom_inspectInitializer ((h.inspectInitializer_eq hbare).trans he)
  have hconstant : e.literal.isSome = true → e.Constant := fun hsome => by
    obtain ⟨v, hv⟩ := Option.isSome_iff_exists.1 hsome
    exact (hfrom.constant hv).2
  obtain ⟨literal, -, he⟩ := bind_eq_ok.1 he
  obtain ⟨isArray, hisArray, he⟩ := bind_eq_ok.1 he
  obtain ⟨shape, hshape, he⟩ := bind_eq_ok.1 he
  cases pure_eq_ok.1 he
  have hdenotes (hnone : literal = none) : p.denotedShape name = .ok shape := by
    rw [shapeOfName, hnone] at hshape
    exact hshape
  refine ⟨rfl, rfl, rfl, rfl, ?_, ?_, hconstant, fun hnone => denotedShape_mem (hdenotes hnone),
    fun hobjects hnone => ?_⟩
  · rw [Evidence.isEmptyArray]
    dsimp only
    rw [h.unwrap_eq, h.hasKind_eq]
    rfl
  · rw [Option.map_some, h.unwrap_eq, Option.filter_some, h.hasKind_eq]
    rfl
  · have harray : init.unwrap.hasKind .array = true := by
      by_contra hno
      have hno := isObjectArray_eq_false (Bool.eq_false_iff.2 hno)
      rw [hno] at hobjects
      cases hobjects
    have hdenoted := h.denoted_array harray
    have hcall : init.unwrap.hasKind .callExpression = false := by
      rw [Site.hasKind, Node.hasKind, eq_of_beq harray]
      rfl
    have hshape := hdenotes hnone
    rw [denotedShape, hdenoted] at hshape
    rw [hdenoted] at hisArray
    dsimp only [bind, Except.bind] at hshape
    rw [hcall, harray] at hshape
    constructor
    · cases hshape
      rfl
    · cases pure_eq_ok.1 hisArray
      exact harray

end Project

end SettingsHarvest
