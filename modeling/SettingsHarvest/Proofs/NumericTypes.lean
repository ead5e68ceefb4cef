import SettingsHarvest.Proofs.Evidence
import SettingsHarvest.Proofs.Leaves

/-! The types of settings whose default is a number.

A setting without choices whose sort leaves the type open takes it from its default. A number makes it an
integer or a floating-point setting by what the number is equal to (`numberType`), and not by what it is
held as: a floating-point number from 2^53 on stays one when constants are evaluated, and is equal to an
integer all the same. Type and default agree (`TypedAlike`) unless the default is such a number
(`numeric_default_typed_iff`). -/
namespace SettingsHarvest
open Syntax

/-! ### Numbers and types -/

/-- The sorts that leave it to a number whether the setting is an integer: plain numbers, sorts that say
nothing about the value, and none at all. -/
def LeavesNumberOpen (t : Option OptionType) : Prop :=
  t = none ∨ t = some .number ∨ t = some .component ∨ t = some .custom

/-- The type that a number gives to a setting. -/
def numberType (v : Value) : TargetType := if v.isFractional then .float else .int

/-- A type that goes with how a number is held. -/
def TypedAlike (target : TargetType) (v : Value) : Prop :=
  (target = .int ↔ ∃ n, v = .integer n) ∧ (target = .float ↔ ∃ x, v = .decimal x)

/-- A floating-point number that is equal to an integer. -/
def IsIntegralDecimal (v : Value) : Prop := ∃ x, v = .decimal x ∧ x.isInteger = true

theorem numberType_cases (v : Value) : numberType v = .int ∨ numberType v = .float := by
  unfold numberType
  cases v.isFractional <;> simp

theorem typedAlike_numberType {v : Value} (h : v.isNumber = true) :
    TypedAlike (numberType v) v ↔ ¬IsIntegralDecimal v := by
  cases v with
  | integer n => simp [TypedAlike, numberType, Value.isFractional, IsIntegralDecimal]
  | decimal x =>
    cases hx : x.isInteger <;> simp [TypedAlike, numberType, Value.isFractional, IsIntegralDecimal, hx]
  | null | truth | text | list | record => cases h

/-! ### Classification -/

theorem classify_number {o : Observation} {v : Value} (hchoices : o.choices.isEmpty = true)
    (hsort : LeavesNumberOpen o.optionType) (hconstant : o.evidence.Constant)
    (hliteral : o.evidence.literal = some v) (hnumber : v.isNumber = true) :
    classify o = numberType v := by
  have hvalues : o.choices.values = [] := by simpa [Choices.isEmpty] using hchoices
  have hnone : o.choices.areBoolean = false := by simp [Choices.areBoolean, hvalues]
  have hkinds : v.isTruth = false ∧ v.isText = false := by
    cases v <;> first | exact ⟨rfl, rfl⟩ | cases hnumber
  have hwhole : v.isWhole = !v.isFractional := by simp [Value.isWhole, hnumber]
  unfold classify matchingRule? numberType
  rcases hsort with h | h | h | h
  all_goals
    cases hfraction : v.isFractional <;>
      simp [rules, Observation.hasSort, Observation.inferred, Observation.component,
        Observation.declares, Observation.hasShape, OptionType.isComponent, h, hchoices, hnone, hliteral,
        hkinds, hwhole, hfraction, hconstant.shape, hconstant.stringArray, hconstant.objectArray,
        hconstant.emptyTypedArray, hconstant.emptyArray, hconstant.declaredShape]

/-! ### Evidence -/

namespace Project

/-- Nothing with a value has a form whose shape is all that is asked for. -/
theorem isStructural_eq_false_of_value {p : Project} {s : Site} {b : Bindings} {v : Value}
    (h : p.evaluate s b = .ok (.ok v)) : s.unwrap.isStructural = false := by
  have hvalue : p.valueOf (p.evaluateWithin 32) b s.unwrap = .ok (.ok v) := h
  have hplain {k : Kind} (hkind : s.unwrap.kind? = some k) (hk : k.isFunction = false)
      (hk' : k ∉ [.array, .object, .callExpression, .newExpression, .nullLiteral, .jsxElement,
        .jsxSelfClosingElement, .classExpression]) : s.unwrap.isStructural = false := by
    have hother (k' : Kind) : s.unwrap.hasKind k' = (k == k') := congrArg (· == some k') hkind
    have hfunction : s.unwrap.isFunction = false := by simp [Site.isFunction, hkind, hk]
    simp only [List.mem_cons, List.not_mem_nil, or_false, not_or] at hk'
    simp [Site.isStructural, Site.isRenderer, hother, hfunction, hk']
  unfold valueOf at hvalue
  split at hvalue
  case h_12 => cases hvalue
  all_goals
    next hkind => exact hplain hkind rfl (by decide)

/-- A setting whose default is an expression with a number for its value: `undefined` is none, and a getter
would stand in front of it. -/
structure NumericDefault (p : Project) (setting : Site) (v : Value) : Prop where
  noGetter : setting.getter? "default" = .ok none
  member : ∃ init, setting.memberValue? "default" = .ok (some init) ∧ init.isNull = false ∧
    p.evaluate init [] = .ok (.ok v)
  isNumber : v.isNumber = true

/-- The evidence of a setting with a number for its default is that number. -/
theorem NumericDefault.literal {p : Project} {setting : Site} {v : Value} {e : Evidence}
    (h : p.NumericDefault setting v) (he : p.inspectDefault setting = .ok e) : e.literal = some v := by
  obtain ⟨init, hinit, hnull, hv⟩ := h.member
  have hinspected : p.inspectInitializer init = .ok e := by
    obtain ⟨getter, hgetter, he⟩ := bind_eq_ok.1 he
    cases h.noGetter.symm.trans hgetter
    obtain ⟨member, hmember, he⟩ := bind_eq_ok.1 he
    cases hinit.symm.trans hmember
    exact he
  have hliteral := (inspectedFrom_inspectInitializer hinspected).literal
  rw [scalarLiteral?, isStructural_eq_false_of_value hv, hnull, hv] at hliteral
  exact (pure_eq_ok.1 hliteral).symm

/-! ### Settings -/

/-- A setting that is no enumeration, from its type and default and from what is written beside them. -/
def plainSetting (object : Site) (name : String) (target : TargetType) (default : Value) :
    Attempt Setting := do
  let description ← object.settingDescription?
  let example? ← object.settingExample? description
  let hidden ← object.flagMember "hidden"
  let restartNeeded ← object.flagMember "restartNeeded"
  return ⟨name, target, description, some default, none, none, example?, hidden, restartNeeded⟩

/-- A number without choices gives a setting its type and is its default. -/
theorem extractSetting_number {p : Project} {name : String} {object : Site} {i : Inspection} {v : Value}
    (hi : p.inspect object = .ok i) (hchoices : i.choices.isEmpty = true) (hsort : LeavesNumberOpen i.sort?)
    (hdefault : p.NumericDefault object v) :
    p.extractSetting name object = (plainSetting object name (numberType v) v).map .ok := by
  obtain ⟨-, -, hevidence⟩ := inspect_parts hi
  have hliteral := hdefault.literal hevidence
  obtain ⟨hconstant, -⟩ := inspectDefault_constant hevidence hliteral
  have htarget : classify i.observation = numberType v :=
    classify_number hchoices hsort hconstant hliteral hdefault.isNumber
  have hresolved : p.resolveDefault object (numberType v) i.evidence i.choices i.sort? =
      .ok (numberType v, some v) := by
    simp only [resolveDefault, hliteral]
  have hplain : (numberType v == .enum) = false := by
    rcases numberType_cases v with h | h <;> rw [h] <;> rfl
  rw [extractSetting, hi]
  dsimp only [bind, Except.bind]
  rw [hconstant.shape, htarget, hresolved]
  dsimp only
  rw [hplain]
  split
  · next habsent => cases habsent
  · unfold plainSetting
    cases object.settingDescription? with
    | error f => rfl
    | ok description =>
      dsimp only [bind, Except.bind]
      cases object.settingExample? description with
      | error f => rfl
      | ok example? =>
        cases object.flagMember "hidden" with
        | error f => rfl
        | ok hidden => cases object.flagMember "restartNeeded" <;> rfl

end Project

/-- **Type and default of a number.** A setting without choices whose sort leaves the type of a number open
is read with the number for its default, and as an integer if that is equal to one, as floating-point
otherwise. So its type goes with how the default is held unless that is a floating-point number equal to an
integer. -/
theorem numeric_default_typed_iff {p : Project} {object : Site} {i : Project.Inspection} {v : Value}
    (hi : p.inspect object = .ok i) (hchoices : i.choices.isEmpty = true) (hsort : LeavesNumberOpen i.sort?)
    (hdefault : p.NumericDefault object v) :
    (∀ name, p.extractSetting name object =
      (Project.plainSetting object name (numberType v) v).map .ok) ∧
    (TypedAlike (numberType v) v ↔ ¬IsIntegralDecimal v) :=
  ⟨fun _ => Project.extractSetting_number hi hchoices hsort hdefault,
    typedAlike_numberType hdefault.isNumber⟩

/-- A setting with a sort, by its number, and a numeral for its default. -/
def numeralSetting (sort default : String) : Site :=
  siteOf (objectLiteral [pairLiteral "type" (.leaf .number none " " sort),
    pairLiteral "default" (.leaf .number none " " default)])

/-- A fraction in a setting of its own sort. -/
theorem fraction_typed_alike :
    ∃ i v, bareProject.inspect (numeralSetting "7" "0.5") = .ok i ∧ i.choices.isEmpty = true ∧
      LeavesNumberOpen i.sort? ∧ bareProject.NumericDefault (numeralSetting "7" "0.5") v ∧
      (∀ name, bareProject.extractSetting name (numeralSetting "7" "0.5") =
        (Project.plainSetting (numeralSetting "7" "0.5") name (numberType v) v).map .ok) ∧
      (TypedAlike (numberType v) v ↔ ¬IsIntegralDecimal v) := by
  have hdefault : bareProject.NumericDefault (numeralSetting "7" "0.5") (.decimal (.ofDecimal false 5 (-1))) :=
    ⟨rfl, ⟨_, rfl, rfl, rfl⟩, rfl⟩
  obtain ⟨i, hi, hchoices, hsort⟩ : ∃ i, bareProject.inspect (numeralSetting "7" "0.5") = .ok i ∧
      i.choices.isEmpty = true ∧ i.sort? = some .custom := ⟨_, rfl, rfl, rfl⟩
  have hopen : LeavesNumberOpen i.sort? := by
    rw [hsort]
    exact .inr (.inr (.inr rfl))
  exact ⟨i, _, hi, hchoices, hopen, hdefault, numeric_default_typed_iff hi hchoices hopen hdefault⟩

/-- A numeral beyond 2^53 with an exponent stays a floating-point number, and makes an integer setting. -/
theorem large_numeral_typed_int :
    ∃ s x, bareProject.NumericDefault (numeralSetting "1" "1e20") (.decimal x) ∧
      bareProject.extractSetting "limit" (numeralSetting "1" "1e20") = .ok (.ok s) ∧
      s.target = .int ∧ s.default = some (.decimal x) ∧ ¬TypedAlike s.target (.decimal x) := by
  refine ⟨_, _, ⟨rfl, ⟨_, rfl, rfl, rfl⟩, rfl⟩, rfl, rfl, rfl, ?_⟩
  intro h
  obtain ⟨n, hn⟩ := h.1.1 rfl
  cases hn

end SettingsHarvest
