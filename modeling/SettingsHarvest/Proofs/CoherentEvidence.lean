import SettingsHarvest.Proofs.AliasedDefaults
import SettingsHarvest.Proofs.Hiding
import SettingsHarvest.Proofs.References

/-! Evidence that agrees with itself.

The parts of the evidence are found apart from one another: the value by evaluation, the shape by the form
of the default or by what names and members lead to, and so is the list that a name stands for. They agree
(`Evidence.Coherent`) since evaluation and reference take the same way: what an expression with a value
leads to is reached by the evaluation, too, so it is no list (`not_array_of_chain`). -/
namespace SettingsHarvest
open Syntax

/-! ### Values behind references -/

namespace Project

variable {p : Project} {s init found base object next setting : Site} {depth steps : Nat} {v : Value}
  {object? : Site → Attempt (Option Site)} {e : Evidence}

/-- What is found with less depth is found. -/
theorem object_of_objectWithin (hdepth : depth ≤ deepestChain)
    (h : p.objectWithin depth base = .ok (some object)) : p.object? base = .ok (some object) := by
  have hends : p.denotedWithin depth base ≠ .error .endlessReference := by
    intro hendless
    rw [objectWithin_endless_iff.2 hendless] at h
    cases h
  rw [object?, denoted?, denotedWithin_mono hdepth hends]
  exact h

theorem memberValue_of_propertyValue {key : String} (h : object.propertyValue? key = .ok (some next)) :
    object.memberValue? key = .ok (some next) := by
  rw [Site.memberValue?, h]
  rfl

/-- A name that has a value has it from its initializer. -/
theorem value_of_name (h : p.evaluateWithin depth s [] = .ok (.ok v))
    (hname : s.unwrap.hasKind .identifier = true) (hinit : p.initializer? s.unwrap = .ok (some init)) :
    ∃ depth' w, p.evaluateWithin depth' init [] = .ok (.ok w) := by
  cases depth with
  | zero => cases h
  | succ depth =>
    rw [evaluateWithin, valueOf, Site.kind_eq_of_hasKind hname] at h
    dsimp only at h
    rw [nameValue, List.lookup_nil] at h
    obtain ⟨found, hfound, h⟩ := bind_eq_ok.1 h
    cases hfound.symm.trans hinit
    obtain ⟨outcome, houtcome, hvalue⟩ := bind_eq_ok.1 h
    cases outcome with
    | error f => cases hvalue
    | ok w => exact ⟨depth, w, houtcome⟩

/-- A member of an object that has a value has it from the pair with its key. -/
theorem value_of_member {key : String} (h : p.evaluateWithin depth s [] = .ok (.ok v))
    (hreads : ReadsFrom s.unwrap base key) (hobject : p.object? base = .ok (some object))
    (hnext : object.propertyValue? key = .ok (some next)) :
    ∃ depth', p.evaluateWithin depth' next [] = .ok (.ok v) := by
  cases depth with
  | zero => cases h
  | succ depth =>
    rw [evaluateWithin, valueOf, Site.kind_eq_of_hasKind hreads.isAccess] at h
    dsimp only at h
    rw [memberValue, hreads.parts] at h
    dsimp only at h
    rw [accessValue_of_object (fun _ => rfl) hobject (memberValue_of_propertyValue hnext)] at h
    exact ⟨depth, h⟩

/-- An expression with a value leads to no list, however far it is followed. -/
theorem not_array_of_chain
    (hobject? : ∀ base object, object? base = .ok (some object) → p.object? base = .ok (some object))
    (hvalue : p.evaluateWithin depth s [] = .ok (.ok v))
    (hchain : p.chain object? steps s.unwrap = .ok (some found)) : found.hasKind .array = false := by
  induction steps generalizing s depth v with
  | zero => cases hchain
  | succ steps ih =>
    rw [chain_succ] at hchain
    obtain ⟨step, hstep, hchain⟩ := bind_eq_ok.1 hchain
    cases step with
    | ended last =>
      cases hchain
      rw [follow_ended hstep]
      exact not_array_of_value hvalue
    | toward t =>
      obtain ⟨hname, next, hnext, rfl⟩ | ⟨base, key, object, next, hreads, hobject, hnext, rfl⟩ :=
        follow_toward hstep
      · obtain ⟨_, _, hinner⟩ := value_of_name hvalue hname hnext
        exact ih hinner hchain
      · obtain ⟨_, hinner⟩ := value_of_member hvalue hreads (hobject? _ _ hobject) hnext
        exact ih hinner hchain

theorem not_array_of_denoted (hvalue : p.evaluate init [] = .ok (.ok v))
    (h : p.denoted? init = .ok (some found)) : found.hasKind .array = false := by
  unfold denoted? deepestChain at h
  rw [denotedWithin_succ] at h
  exact not_array_of_chain (fun _ _ => object_of_objectWithin (by decide)) hvalue h

end Project

/-! ### Shapes -/

namespace Project

variable {p : Project} {init found setting : Site} {shape : Shape} {literal : Option Value} {e : Evidence}

/-- The shape of a constant is that of exactly the defaults with a value. -/
theorem shapeOf_eq_literal_iff (h : p.shapeOf init literal = .ok shape) :
    shape = .literal ↔ literal.isSome = true := by
  cases literal with
  | some v =>
    cases pure_eq_ok.1 h
    exact iff_of_true rfl rfl
  | none =>
    refine iff_of_false (fun hshape => ?_) nofun
    have hmem := shapeOf_mem h
    rw [hshape] at hmem
    revert hmem
    decide

/-! ### Names of lists -/

/-- A name that leads to a list has the shape of one. -/
theorem shapeOf_listName (hname : init.unwrap.isName = true)
    (hdenoted : p.denoted? init.unwrap = .ok (some found)) (harray : found.hasKind .array = true) :
    p.shapeOf init none = .ok .array := by
  obtain ⟨hkind, hnull⟩ := Bool.and_eq_true_iff.1 hname
  have hother (k : Kind) (hk : .identifier ≠ k) : init.unwrap.hasKind k = false := Site.hasKind_ne hkind hk
  have hnull : init.isNull = false := by
    have hsame : init.unwrap.isNull = init.isNull := by rw [Site.isNull, Site.unwrap_unwrap, Site.isNull]
    simpa [hsame] using hnull
  have hrenderer : init.unwrap.isRenderer = false := by
    rw [Site.isRenderer, Site.isFunction, Site.kind_eq_of_hasKind hkind]
    simp (disch := decide) only [hother]
    rfl
  have hcall : found.hasKind .callExpression = false := Site.hasKind_ne harray (by decide)
  unfold shapeOf
  simp (disch := decide) only [hnull, hrenderer, hother, hkind]
  show p.denotedShape init.unwrap = .ok .array
  rw [denotedShape, hdenoted]
  show (if _ then _ else _) = _
  rw [hcall, harray]
  rfl

/-- A name that leads somewhere is declared, or spelled like a variable. -/
theorem isDeclaredName_of_denoted (hname : init.unwrap.isName = true)
    (h : p.denoted? init.unwrap = .ok (some found)) : p.isDeclaredName init.unwrap = .ok true := by
  obtain ⟨hkind, -⟩ := Bool.and_eq_true_iff.1 hname
  obtain ⟨next, hnext⟩ := exists_initializer hkind h
  obtain ⟨declared, hdeclared, hnext⟩ := bind_eq_ok.1 hnext
  rw [isDeclaredName, if_pos hname, hdeclared]
  cases declared with
  | some d => rfl
  | none =>
    rw [pure_eq_ok.1 hnext]
    rfl

/-- What the evidence of an expression says of a list by name. -/
theorem inspectInitializer_names (h : p.inspectInitializer init = .ok e) :
    e.identifier = init.unwrap.isName ∧ p.isDeclaredName init.unwrap = .ok e.identifierDeclared ∧
      p.isListName init.unwrap = .ok e.identifierIsArray := by
  rw [inspectInitializer_eq] at h
  obtain ⟨literal, -, h⟩ := bind_eq_ok.1 h
  obtain ⟨declared, hdeclared, h⟩ := bind_eq_ok.1 h
  obtain ⟨isArray, hisArray, h⟩ := bind_eq_ok.1 h
  obtain ⟨shape, -, h⟩ := bind_eq_ok.1 h
  obtain ⟨stringArray, -, h⟩ := bind_eq_ok.1 h
  obtain ⟨objectArray, -, h⟩ := bind_eq_ok.1 h
  obtain ⟨emptyTypedArray, -, h⟩ := bind_eq_ok.1 h
  obtain ⟨declaredShape, -, h⟩ := bind_eq_ok.1 h
  cases pure_eq_ok.1 h
  exact ⟨rfl, hdeclared, hisArray⟩

theorem exists_array_of_isListName {s : Site} (h : p.isListName s = .ok true) :
    s.isName = true ∧ ∃ found, p.denoted? s = .ok (some found) ∧ found.hasKind .array = true := by
  unfold isListName at h
  split at h
  · next hname =>
    obtain ⟨found?, hfound, h⟩ := bind_eq_ok.1 h
    obtain ⟨found, rfl, harray⟩ := (Option.any_eq_true _ _).1 (pure_eq_ok.1 h)
    exact ⟨hname, found, hfound, harray⟩
  · cases h

end Project

/-! ### Coherence -/

/-- Evidence whose parts agree with one another. -/
structure Evidence.Coherent (e : Evidence) : Prop where
  literal : e.shape = .literal ↔ e.literal.isSome = true
  getter : e.getter = true ↔ e.shape = .getter
  bareGetter : e.shape = .getter → e = { shape := .getter, getter := true }
  bareAbsent : e.shape = .absent → e = {}
  constant : e.literal.isSome = true → e.stringArray = false ∧ e.objectArray = false ∧
    e.emptyTypedArray = false ∧ e.identifierIsArray = false ∧ e.isEmptyArray = false ∧ e.declaredShape = none
  listName : e.identifierIsArray = true →
    e.identifier = true ∧ e.identifierDeclared = true ∧ e.shape = .array

namespace Project

variable {p : Project} {init setting : Site} {e : Evidence}

theorem inspectInitializer_coherent (h : p.inspectInitializer init = .ok e) : e.Coherent := by
  have hinspected := inspectedFrom_inspectInitializer h
  obtain ⟨hidentifier, hdeclared, hlist⟩ := inspectInitializer_names h
  obtain ⟨hpresent, hgetter⟩ := shapeOf_written hinspected.shape
  have hno (hconstant : e.literal.isSome = true) : e.identifierIsArray = false := by
    obtain ⟨v, hv⟩ := Option.isSome_iff_exists.1 hconstant
    obtain ⟨hvalue, -⟩ := hinspected.constant hv
    refine Bool.eq_false_iff.2 fun hisArray => ?_
    rw [hisArray] at hlist
    obtain ⟨-, found, hfound, harray⟩ := exists_array_of_isListName hlist
    rw [denoted_unwrap] at hfound
    rw [not_array_of_denoted hvalue hfound] at harray
    cases harray
  refine ⟨shapeOf_eq_literal_iff hinspected.shape, ?_, fun hshape => absurd hshape hgetter,
    fun hshape => absurd hshape hpresent, fun hconstant => ?_, fun hisArray => ?_⟩
  · rw [hinspected.getter]
    exact iff_of_false Bool.false_ne_true hgetter
  · obtain ⟨v, hv⟩ := Option.isSome_iff_exists.1 hconstant
    obtain ⟨-, hnothing⟩ := hinspected.constant hv
    exact ⟨hnothing.stringArray, hnothing.objectArray, hnothing.emptyTypedArray, hno hconstant,
      hnothing.emptyArray, hnothing.declaredShape⟩
  · have hnone : e.literal = none := by
      cases hliteral : e.literal with
      | none => rfl
      | some v =>
        rw [hno (by rw [hliteral]; rfl)] at hisArray
        cases hisArray
    rw [hisArray] at hlist
    obtain ⟨hname, found, hfound, harray⟩ := exists_array_of_isListName hlist
    have hshape := hinspected.shape
    rw [hnone, shapeOf_listName hname hfound harray] at hshape
    rw [isDeclaredName_of_denoted hname hfound] at hdeclared
    exact ⟨hidentifier.trans hname, (Except.ok.inj hdeclared).symm, (Except.ok.inj hshape).symm⟩

/-- **Evidence is coherent.** Whatever is found of the default of a setting agrees: the shape with the
value and the getter, and no constant is a list, by name or otherwise. -/
theorem inspectDefault_coherent (h : p.inspectDefault setting = .ok e) : e.Coherent := by
  obtain ⟨getter, -, h⟩ := bind_eq_ok.1 h
  split at h
  · cases pure_eq_ok.1 h
    exact ⟨iff_of_false nofun nofun, iff_of_true rfl rfl, fun _ => rfl, nofun, nofun, nofun⟩
  · obtain ⟨init?, -, h⟩ := bind_eq_ok.1 h
    cases init? with
    | none =>
      cases pure_eq_ok.1 h
      exact ⟨iff_of_false nofun nofun, iff_of_false nofun nofun, nofun, fun _ => rfl, nofun, nofun⟩
    | some init => exact inspectInitializer_coherent h

/-- Of the default `Y` after `const X = ["a"]` and `const Y = X`. -/
theorem second_name_coherent : ∃ e, bareProject.inspectDefault (aliasSetting textsLiteral "Y") = .ok e ∧
    e.identifierIsArray = true ∧ e.Coherent := by
  have hlist : (bareProject.inspectDefault (aliasSetting textsLiteral "Y")).toOption.map
      (·.identifierIsArray) = some true := by decide +kernel
  cases h : bareProject.inspectDefault (aliasSetting textsLiteral "Y") with
  | error f =>
    rw [h] at hlist
    cases hlist
  | ok e =>
    rw [h] at hlist
    exact ⟨e, rfl, Option.some.inj hlist, inspectDefault_coherent h⟩

end Project
end SettingsHarvest
