import SettingsHarvest.Classification
import SettingsHarvest.Proofs.Attempt

/-! Evidence of constants.

A default that is a constant shows nothing else: it has no shape but `literal`, is no list of any
sort, and nothing around it is asked for a type (`Evidence.Constant`). The rules therefore give such a
setting a type whose values are scalar. -/
namespace SettingsHarvest
open Syntax

/-! ### Lists have no value -/

namespace Project

theorem not_array_of_value {p : Project} {depth : Nat} {s : Site} {b : Bindings} {v : Value}
    (h : p.evaluateWithin depth s b = .ok (.ok v)) : s.unwrap.hasKind .array = false := by
  cases depth with
  | zero => cases h
  | succ depth =>
    cases hk : s.unwrap.hasKind .array with
    | false => rfl
    | true =>
      have hkind : s.unwrap.kind? = some .array := eq_of_beq hk
      rw [evaluateWithin, valueOf, hkind] at h
      cases h

/-- A name that has a value does not stand for a list. -/
theorem not_array_of_named {p : Project} {depth : Nat} {s : Site} {v : Value}
    (h : p.evaluateWithin depth s [] = .ok (.ok v)) (hs : s.unwrap.hasKind .identifier = true) :
    ∃ init, p.initializer? s.unwrap = .ok (some init) ∧ init.unwrap.hasKind .array = false := by
  cases depth with
  | zero => cases h
  | succ depth =>
    have hkind : s.unwrap.kind? = some .identifier := eq_of_beq hs
    rw [evaluateWithin, valueOf, hkind] at h
    obtain ⟨init, hinit, h⟩ := bind_eq_ok.1 h
    cases init with
    | none => cases h
    | some init =>
      obtain ⟨outcome, houtcome, h⟩ := bind_eq_ok.1 h
      cases outcome with
      | error f => cases h
      | ok w => exact ⟨init, hinit, not_array_of_value houtcome⟩

end Project

theorem isStringArray_eq_false {s : Site} (h : s.unwrap.hasKind .array = false) :
    s.isStringArray = false := by
  rw [Site.isStringArray, h]
  rfl

theorem isObjectArray_eq_false {s : Site} (h : s.unwrap.hasKind .array = false) :
    s.isObjectArray = false := by
  rw [Site.isObjectArray, h]
  rfl

/-! ### Constants -/

/-- Evidence that shows a constant and nothing else. -/
structure Evidence.Constant (e : Evidence) : Prop where
  shape : e.shape = .literal
  stringArray : e.stringArray = false
  objectArray : e.objectArray = false
  emptyTypedArray : e.emptyTypedArray = false
  emptyArray : e.isEmptyArray = false
  declaredShape : e.declaredShape = none
  getter : e.getter = false

namespace Project

theorem scalarLiteral_cases {p : Project} {init : Site} {v : Value}
    (h : p.scalarLiteral? init = .ok (some v)) :
    init.unwrap.isStructural = false ∧ p.evaluate init [] = .ok (.ok v) := by
  unfold scalarLiteral? at h
  split at h
  · cases h
  · next hnot =>
    obtain ⟨outcome, houtcome, h⟩ := bind_eq_ok.1 h
    refine ⟨by simp only [Bool.or_eq_true, not_or, Bool.not_eq_true] at hnot; exact hnot.1, ?_⟩
    cases outcome with
    | error f => cases pure_eq_ok.1 h
    | ok w =>
      cases pure_eq_ok.1 h
      exact houtcome

/-- What is no literal list, object or call by itself. -/
theorem kinds_of_not_structural {s : Site} (h : s.isStructural = false) :
    s.hasKind .array = false ∧ s.hasKind .callExpression = false := by
  simp only [Site.isStructural, Bool.or_eq_false_iff] at h
  obtain ⟨⟨⟨⟨⟨harray, -⟩, hcall⟩, -⟩, -⟩, -⟩ := h
  exact ⟨harray, hcall⟩

theorem isStringArrayDefault_constant {p : Project} {init : Site} {v : Value} {found : Bool}
    (hs : init.unwrap.isStructural = false) (hv : p.evaluate init [] = .ok (.ok v))
    (h : p.isStringArrayDefault init = .ok found) : found = false := by
  unfold isStringArrayDefault at h
  split at h
  · next hname =>
    obtain ⟨value, hvalue, harray⟩ := not_array_of_named hv hname
    rw [hvalue] at h
    cases pure_eq_ok.1 h
    exact isStringArray_eq_false harray
  · cases h
    exact isStringArray_eq_false (kinds_of_not_structural hs).1

theorem isObjectArrayDefault_constant {p : Project} {init : Site} {v : Value} {found : Bool}
    (hs : init.unwrap.isStructural = false) (hv : p.evaluate init [] = .ok (.ok v))
    (h : p.isObjectArrayDefault init = .ok found) : found = false := by
  obtain ⟨harray, hcall⟩ := kinds_of_not_structural hs
  unfold isObjectArrayDefault at h
  dsimp only at h
  rw [harray, hcall, if_neg (by decide), if_neg (by decide)] at h
  split at h
  · next hname =>
    obtain ⟨value, hvalue, harray⟩ := not_array_of_named hv hname
    rw [hvalue] at h
    cases pure_eq_ok.1 h
    exact isObjectArray_eq_false harray
  · exact (pure_eq_ok.1 h).symm

theorem isEmptyTypedArrayDefault_constant {p : Project} {init : Site} {found : Bool}
    (hs : init.unwrap.isStructural = false) (h : p.isEmptyTypedArrayDefault init = .ok found) :
    found = false := by
  obtain ⟨harray, hcall⟩ := kinds_of_not_structural hs
  unfold isEmptyTypedArrayDefault at h
  dsimp only at h
  rw [harray, hcall] at h
  exact (pure_eq_ok.1 h).symm

/-- What the evidence of an expression was made from. -/
structure InspectedFrom (p : Project) (init : Site) (e : Evidence) : Prop where
  initializer : e.initializer = some init
  literal : p.scalarLiteral? init = .ok e.literal
  shape : p.shapeOf init e.literal = .ok e.shape
  stringArray : p.isStringArrayDefault init = .ok e.stringArray
  objectArray : p.isObjectArrayDefault init = .ok e.objectArray
  emptyTypedArray : p.isEmptyTypedArrayDefault init = .ok e.emptyTypedArray
  declaredShape : e.literal.isSome = true → e.declaredShape = none
  getter : e.getter = false

theorem inspectedFrom_inspectInitializer {p : Project} {init : Site} {e : Evidence}
    (h : p.inspectInitializer init = .ok e) : p.InspectedFrom init e := by
  obtain ⟨literal, hliteral, h⟩ := bind_eq_ok.1 h
  -- what is declared and what is a list is asked for names only, and decides nothing below
  have tail (identifier declared isArray : Bool)
      (h : (do
        let shape ← p.shapeOf init literal
        let stringArray ← p.isStringArrayDefault init
        let objectArray ← p.isObjectArrayDefault init
        let emptyTypedArray ← p.isEmptyTypedArrayDefault init
        let declaredShape ← if literal.isNone then p.declaredShapeOf init else pure none
        return (⟨some init, literal, shape, stringArray, objectArray, emptyTypedArray, identifier,
          declared, isArray, false, declaredShape⟩ : Evidence)) = .ok e) : p.InspectedFrom init e := by
    obtain ⟨shape, hshape, h⟩ := bind_eq_ok.1 h
    obtain ⟨stringArray, hstring, h⟩ := bind_eq_ok.1 h
    obtain ⟨objectArray, hobject, h⟩ := bind_eq_ok.1 h
    obtain ⟨emptyTypedArray, hempty, h⟩ := bind_eq_ok.1 h
    cases literal with
    | none =>
      obtain ⟨declaredShape, -, h⟩ := bind_eq_ok.1 h
      cases pure_eq_ok.1 h
      exact ⟨rfl, hliteral, hshape, hstring, hobject, hempty, nofun, rfl⟩
    | some v =>
      cases pure_eq_ok.1 h
      exact ⟨rfl, hliteral, hshape, hstring, hobject, hempty, fun _ => rfl, rfl⟩
  dsimp only at h
  split at h
  · obtain ⟨_, -, h⟩ := bind_eq_ok.1 h
    obtain ⟨_, -, h⟩ := bind_eq_ok.1 h
    obtain ⟨_, -, h⟩ := bind_eq_ok.1 h
    obtain ⟨_, -, h⟩ := bind_eq_ok.1 h
    exact tail _ _ _ h
  · exact tail _ _ _ h

theorem InspectedFrom.constant {p : Project} {init : Site} {e : Evidence} (h : p.InspectedFrom init e)
    {v : Value} (hv : e.literal = some v) : p.evaluate init [] = .ok (.ok v) ∧ e.Constant := by
  have hliteral := h.literal
  rw [hv] at hliteral
  obtain ⟨hs, hvalue⟩ := scalarLiteral_cases hliteral
  refine ⟨hvalue, ?_, isStringArrayDefault_constant hs hvalue h.stringArray,
    isObjectArrayDefault_constant hs hvalue h.objectArray,
    isEmptyTypedArrayDefault_constant hs h.emptyTypedArray, ?_, h.declaredShape (by rw [hv]; rfl),
    h.getter⟩
  · have hshape := h.shape
    rw [hv] at hshape
    exact (pure_eq_ok.1 hshape).symm
  · rw [Evidence.isEmptyArray, h.initializer]
    simp [(kinds_of_not_structural hs).1]

/-- A setting whose `default` is an expression with a value. -/
def DefaultsTo (p : Project) (setting : Site) (v : Value) : Prop :=
  ∃ init, setting.memberValue? "default" = .ok (some init) ∧ p.evaluate init [] = .ok (.ok v)

/-- A setting whose `default` is an expression that evaluates to a constant: written as one, or a name, an
access or an operation that comes to one. -/
def WritesDefault (p : Project) (setting : Site) (v : Value) : Prop :=
  ∃ e, p.inspectDefault setting = .ok e ∧ e.literal = some v

/-- The evidence of a setting shows a constant only where the setting has a member that is one. -/
theorem inspectDefault_constant {p : Project} {setting : Site} {e : Evidence} {v : Value}
    (h : p.inspectDefault setting = .ok e) (hv : e.literal = some v) :
    e.Constant ∧ p.DefaultsTo setting v := by
  obtain ⟨getter, -, h⟩ := bind_eq_ok.1 h
  split at h
  · cases pure_eq_ok.1 h
    cases hv
  · obtain ⟨member, hmember, h⟩ := bind_eq_ok.1 h
    cases member with
    | none =>
      cases pure_eq_ok.1 h
      cases hv
    | some init =>
      obtain ⟨hvalue, hconstant⟩ := (inspectedFrom_inspectInitializer h).constant hv
      exact ⟨hconstant, init, hmember, hvalue⟩

end Project

/-! ### Classification of constants -/

/-- Types whose values are scalar. -/
def TargetType.isScalar (t : TargetType) : Bool :=
  [.bool, .str, .int, .float, .enum].contains t

theorem matchingRule_mem {o : Observation} {r : Rule} (h : matchingRule? o = some r) :
    r ∈ rules ∧ r.holds o = true :=
  ⟨List.mem_of_find?_eq_some h, by simpa using List.find?_some h⟩

/-- Whatever holds of the targets of all rules that can hold, and of texts, holds of a target type. -/
theorem classify_of_rules {o : Observation} {P : TargetType → Prop} (hstr : P .str)
    (hrules : ∀ r ∈ rules, r.holds o = true → P r.target) : P (classify o) := by
  unfold classify
  cases h : matchingRule? o with
  | none => exact hstr
  | some r =>
    obtain ⟨hmem, hholds⟩ := matchingRule_mem h
    exact hrules r hmem hholds

theorem classify_constant {o : Observation} (h : o.evidence.Constant) :
    (classify o).isScalar = true := by
  refine classify_of_rules (P := fun t => t.isScalar = true) rfl ?_
  simp [rules, TargetType.isScalar, Observation.declares, Observation.hasShape, h.shape,
    h.stringArray, h.objectArray, h.emptyTypedArray, h.emptyArray, h.declaredShape]

end SettingsHarvest
