import SettingsHarvest.Proofs.Aliases
import SettingsHarvest.Proofs.Asides
import SettingsHarvest.Proofs.Parentheses

/-! Settings with a second name for a default.

After `const Y = X` a setting with the default `Y` has the type and the default of one with the default
`X`, but for what one look behind a name shows (`second_name_alike`). A list of texts behind `X` is one
look away, and two behind `Y`; so is a type written around `X`; and a list of objects is seen to be a list
either way, but to be one of objects from `X` only, which tells unless the sort is custom
(`Inspection.showsThrough`). A name is classified by few of the rules: choices, its sort, what is declared
and the shape (`classify_name`), and the type is refined once more with the default (`refinedName`). -/
namespace SettingsHarvest
open Syntax Project

/-! ### Types of names -/

/-- The target type of a setting without choices whose default is a name that is no constant and for no
list of texts. -/
def targetOfName (sort : Option OptionType) (declared : Option TypeShape) (shape : Shape) : TargetType :=
  match sort, declared with
  | some .boolean, _ => .bool
  | some .number, _ | some .bigint, _ => .int
  | some .slider, _ => .float
  | some .component, _ | some .custom, _ => if shape = .object then .attrs else .str
  | some _, _ => .str
  | none, some .boolean => .bool
  | none, some .string => .str
  | none, some .number => .int
  | none, some .array | none, some .component => .attrs
  | none, none => if shape = .array ∨ shape = .object then .attrs else .str

section Classification

variable {e : Evidence} {choices : Choices}

/-- Without choices and with a sort, the sort decides, or the shape where the sort says nothing. -/
theorem classify_name_sorted (h : OfName e) (hliteral : e.literal = none) (hstrings : e.stringArray = false)
    (hboolean : choices.areBoolean = false) (hempty : choices.isEmpty = true) (sort : OptionType) :
    classify ⟨some sort, e, choices⟩ = targetOfName (some sort) e.declaredShape e.shape := by
  have hshape := h.shape hliteral
  unfold classify matchingRule? rules
  cases sort
  case component | custom =>
    simp only [List.mem_cons, List.not_mem_nil, or_false] at hshape
    rcases hshape with hs | hs | hs | hs | hs <;>
      simp [Observation.hasSort, Observation.component, Observation.inferred, Observation.declares,
        Observation.hasShape, OptionType.isComponent, targetOfName, hboolean, hempty, hliteral, hstrings,
        h.emptyTypedArray, h.emptyArray, h.identifier, hs]
  all_goals
    simp [Observation.hasSort, Observation.component, Observation.inferred, Observation.declares,
      OptionType.isComponent, targetOfName, hboolean, hempty, hliteral, hstrings, h.emptyTypedArray,
      h.emptyArray, h.identifier]

/-- Without choices and without a sort, the type around the variable decides, or else the shape. -/
theorem classify_name_unsorted (h : OfName e) (hliteral : e.literal = none) (hstrings : e.stringArray = false)
    (hboolean : choices.areBoolean = false) (hempty : choices.isEmpty = true) :
    classify ⟨none, e, choices⟩ = targetOfName none e.declaredShape e.shape := by
  have hshape := h.shape hliteral
  unfold classify matchingRule? rules
  cases hdeclared : e.declaredShape with
  | some declared =>
    cases declared <;>
      simp [Observation.hasSort, Observation.component, Observation.declares, targetOfName, hboolean, hempty,
        hstrings, h.emptyTypedArray, h.emptyArray, h.identifier, hdeclared]
  | none =>
    simp only [List.mem_cons, List.not_mem_nil, or_false] at hshape
    rcases hshape with hs | hs | hs | hs | hs <;>
      simp [Observation.hasSort, Observation.component, Observation.inferred, Observation.declares,
        Observation.hasShape, targetOfName, hboolean, hempty, hliteral, hstrings, h.emptyTypedArray,
        h.emptyArray, h.identifier, hdeclared, hs]

/-- Choices decide, and without any the default does. -/
theorem classify_name (h : OfName e) (hliteral : e.literal = none) (hstrings : e.stringArray = false)
    (sort : Option OptionType) :
    classify ⟨sort, e, choices⟩ = if choices.areBoolean then .bool else if choices.isEmpty then
      targetOfName sort e.declaredShape e.shape else .enum := by
  cases hboolean : choices.areBoolean with
  | true => simp [classify, matchingRule?, rules, hboolean]
  | false =>
    cases hempty : choices.isEmpty with
    | false => simp [classify, matchingRule?, rules, hboolean, hempty]
    | true =>
      cases sort with
      | some sort => exact classify_name_sorted h hliteral hstrings hboolean hempty sort
      | none => exact classify_name_unsorted h hliteral hstrings hboolean hempty

end Classification

/-! ### What shows through a second name -/

/-- Sorts whose type and default do not depend on the sort of thing the default is. -/
def OptionType.isSettled (t : OptionType) : Bool :=
  t == boolean || t == number || t == bigint || t == slider

/-- Whether a shape says as much about a setting without a sort as the type written around a variable. -/
def Shape.settles (shape : Shape) : Option TypeShape → Bool
  | none => true
  | some .string => !(shape == .array || shape == .object)
  | some .array | some .component => shape == .array || shape == .object
  | some .boolean | some .number => false

/-- Whether the setting of a default is the same with a second name for it: the default is a constant, or
it is for no list of texts and the type is settled elsewhere, or it is for no list of objects either unless
the sort is custom, and no type says more than the shape. -/
def Project.Inspection.showsThrough (i : Inspection) : Bool :=
  i.evidence.literal.isSome || !i.evidence.stringArray &&
    (!i.choices.isEmpty || i.sort?.any OptionType.isSettled ||
      (!i.evidence.objectArray || i.sort? == some .custom) &&
        (i.sort?.isSome || i.evidence.shape.settles i.evidence.declaredShape))

section Resolution

variable {p : Project} {e : Evidence} {choices : Choices} {s y : Site}

theorem classify_constant_behindAlias (hconstant : e.Constant) (h' : OfName (e.behindAlias y))
    (sort : Option OptionType) (choices : Choices) :
    classify ⟨sort, e, choices⟩ = classify ⟨sort, e.behindAlias y, choices⟩ := by
  have hsame : e.behindAlias y = { e with initializer := some y } := by
    obtain ⟨-, hstrings, hobjects, -, -, hdeclared, -⟩ := hconstant
    cases e
    dsimp only at hstrings hobjects hdeclared
    subst hstrings hobjects hdeclared
    rfl
  have hempty := h'.emptyArray
  rw [hsame] at hempty ⊢
  exact classify_initializer (hconstant.emptyArray.trans hempty.symm) sort choices

/-- The type and default of a setting whose default is a name that is no constant and for no list of
texts, from the type it was classified as. -/
theorem resolveDefault_name (h : OfName e) (hliteral : e.literal = none) (hstrings : e.stringArray = false)
    (target : TargetType) (sort : Option OptionType) :
    p.resolveDefault s target e choices sort = match target with
      | .str => .ok (promoteText e sort)
      | .attrs => .ok (if e.objectArray then (.listOfAttrs, some (.list [])) else (.attrs, some (.record [])))
      | other => p.resolveDefault s other {} choices sort := by
  unfold resolveDefault
  rw [hliteral]
  dsimp only
  rw [if_neg (by simp [hstrings])]
  cases target with
  | attrs =>
    dsimp only
    rw [attrsDefault, h.getter, if_neg (by decide), h.noCall, h.identifier]
    cases e.objectArray <;> rfl
  | _ => rfl

theorem promoteText_name (h : OfName e) (sort : Option OptionType) :
    promoteText e sort = if sort = some .custom ∨ e.objectArray = true then
      if e.objectArray = true ∨ e.identifierIsArray = true then (.listOfAttrs, some (.list []))
      else (.attrs, some (.record []))
    else (.nullableStr, some .null) := by
  simp [promoteText, h.identifier, h.identifierDeclared]

/-- A type that says no more than the shape makes no difference. -/
theorem targetOfName_says {sort : Option OptionType} {declared : Option TypeShape} {shape : Shape}
    (h : sort.isSome || shape.settles declared) :
    targetOfName sort declared shape = targetOfName sort none shape := by
  cases sort with
  | some sort => cases sort <;> rfl
  | none =>
    cases declared with
    | none => rfl
    | some declared => cases declared <;> cases shape <;> first | rfl | cases h

/-- Settled sorts have one target. -/
theorem targetOfName_settled {sort : Option OptionType} (h : sort.any OptionType.isSettled)
    (declared : Option TypeShape) (shape : Shape) :
    targetOfName sort declared shape = targetOfName sort none shape ∧
      targetOfName sort declared shape ∉ [TargetType.str, .attrs] := by
  cases sort with
  | none => cases h
  | some sort =>
    cases sort
    case number | bigint | boolean | slider => exact ⟨rfl, by simp [targetOfName]⟩
    all_goals exact absurd h (by decide)

/-- The type that a name gives to a setting classified as some type. -/
def refinedName (sort : Option OptionType) (objects isArray : Bool) : TargetType → TargetType
  | .str =>
    if sort = some .custom ∨ objects = true then
      if objects = true ∨ isArray = true then .listOfAttrs else .attrs
    else .nullableStr
  | .attrs => if objects then .listOfAttrs else .attrs
  | target => target

theorem refinedName_ne {sort : Option OptionType} {declared : Option TypeShape} {shape : Shape}
    {objects isArray : Bool} (hunsettled : sort.any OptionType.isSettled = false)
    (hlist : objects = true → shape = .array)
    (hmore : objects = true ∧ (sort == some .custom) = false ∨
      sort.isSome = false ∧ shape.settles declared = false) :
    refinedName sort objects isArray (targetOfName sort declared shape) ≠
      refinedName sort false isArray (targetOfName sort none shape) := by
  rcases hmore with ⟨hobjects, hcustom⟩ | ⟨hsort, hsays⟩
  · subst hobjects
    obtain rfl := hlist rfl
    cases sort with
    | some sort =>
      cases sort
      case string | select | component | other => simp [refinedName, targetOfName]
      case custom => cases hcustom
      all_goals exact absurd hunsettled (by decide)
    | none =>
      cases declared with
      | some declared => cases declared <;> cases isArray <;> decide
      | none => cases isArray <;> decide
  · obtain rfl := Option.not_isSome_iff_eq_none.1 (Bool.eq_false_iff.1 hsort)
    -- a shape that is for no collection makes a text of the name, and any other a set of attributes
    have hbehind : refinedName none false isArray (targetOfName none none shape) =
        if shape = .array ∨ shape = .object then .attrs else .nullableStr := by
      rw [targetOfName]
      split <;> rfl
    have hcollection : (shape == .array || shape == .object) = true ↔ shape = .array ∨ shape = .object := by
      rw [Bool.or_eq_true, beq_iff_eq, beq_iff_eq]
    rw [hbehind]
    cases declared with
    | none => cases hsays
    | some declared =>
      cases declared with
      | boolean | number =>
        split <;> exact nofun
      | string =>
        rw [if_pos (hcollection.1 ((Bool.not_eq_false' _).mp hsays))]
        show refinedName none objects isArray .str ≠ _
        cases objects <;> cases isArray <;> decide
      | array | component =>
        rw [if_neg fun hshape => Bool.eq_false_iff.1 hsays (hcollection.2 hshape)]
        show refinedName none objects isArray .attrs ≠ _
        cases objects <;> cases isArray <;> decide

theorem targetOfName_ne_listOfStr {sort : Option OptionType} {declared : Option TypeShape} {shape : Shape} :
    targetOfName sort declared shape ≠ .listOfStr := by
  unfold targetOfName
  split <;> first | (split <;> decide) | decide

theorem refinedName_ne_listOfStr {sort : Option OptionType} {objects isArray : Bool} {target : TargetType}
    (h : target ≠ .listOfStr) : refinedName sort objects isArray target ≠ .listOfStr := by
  unfold refinedName
  split
  · split <;> [split; skip] <;> decide
  · split <;> decide
  · exact h

section

variable (h : OfName e) (h' : OfName (e.behindAlias y)) (hliteral : e.literal = none)
  (hstrings : e.stringArray = false)

include h h' hliteral hstrings

/-- Without a list of objects one target has the same default. -/
theorem resolveDefault_behindAlias (target : TargetType) (sort : Option OptionType)
    (htarget : e.objectArray = false ∨ target ∉ [TargetType.str, .attrs]) :
    p.resolveDefault s target e choices sort = p.resolveDefault s target (e.behindAlias y) choices sort := by
  rw [resolveDefault_name h hliteral hstrings,
    resolveDefault_name h' (show e.literal = none from hliteral) rfl]
  rcases htarget with hobjects | htarget
  · rw [promoteText_name h, promoteText_name h', hobjects]
    rfl
  · cases target <;> first | rfl | exact absurd (by decide) htarget

theorem resolve_name_eq (sort : Option OptionType)
    (hshows : !choices.isEmpty || sort.any OptionType.isSettled ||
      (!e.objectArray || sort == some .custom) && (sort.isSome || e.shape.settles e.declaredShape)) :
    p.resolveDefault s (classify ⟨sort, e, choices⟩) e choices sort =
      p.resolveDefault s (classify ⟨sort, e.behindAlias y, choices⟩) (e.behindAlias y) choices sort := by
  have hliteral' : (e.behindAlias y).literal = none := hliteral
  have hsame : ∀ target sort, (e.objectArray = false ∨ target ∉ [TargetType.str, .attrs]) →
      p.resolveDefault s target e choices sort =
        p.resolveDefault s target (e.behindAlias y) choices sort :=
    resolveDefault_behindAlias h h' hliteral hstrings
  rw [classify_name h hliteral hstrings, classify_name h' hliteral' rfl]
  cases hboolean : choices.areBoolean with
  | true => exact hsame .bool _ (.inr (by decide))
  | false =>
    cases hempty : choices.isEmpty with
    | false => exact hsame .enum _ (.inr (by decide))
    | true =>
      show p.resolveDefault s (targetOfName sort e.declaredShape e.shape) e choices sort =
        p.resolveDefault s (targetOfName sort none e.shape) (e.behindAlias y) choices sort
      rw [hempty] at hshows
      simp only [Bool.not_true, Bool.false_or, Bool.or_eq_true, Bool.and_eq_true, Bool.not_eq_true'] at hshows
      rcases hshows with hsettled | ⟨hobjects | hcustom, hsays⟩
      · obtain ⟨htarget, hscalar⟩ := targetOfName_settled hsettled e.declaredShape e.shape
        rw [← htarget]
        exact hsame _ _ (.inr hscalar)
      · rw [← targetOfName_says (Bool.or_eq_true_iff.2 hsays)]
        exact hsame _ _ (.inl hobjects)
      · obtain rfl := eq_of_beq hcustom
        cases hobjects : e.objectArray with
        | false => exact hsame _ _ (.inl hobjects)
        | true =>
          -- a list of objects is a list to the end of the chain
          obtain ⟨hshape, harray⟩ := h.objectArray hobjects hliteral
          rw [hshape]
          show p.resolveDefault s .str e choices _ = p.resolveDefault s .str (e.behindAlias y) choices _
          rw [resolveDefault_name h hliteral hstrings, resolveDefault_name h' hliteral' rfl]
          dsimp only
          rw [promoteText_name h, promoteText_name h']
          simp [hobjects, Evidence.behindAlias, harray]

omit h' in
/-- The type of a name, refined. -/
theorem resolveDefault_name_type {target : TargetType} {sort : Option OptionType} {r : Resolution}
    (hr : p.resolveDefault s target e choices sort = .ok r) :
    r.1 = refinedName sort e.objectArray e.identifierIsArray target := by
  rw [resolveDefault_name h hliteral hstrings] at hr
  cases target with
  | str =>
    cases hr
    rw [promoteText_name h, refinedName]
    split <;> [split; skip] <;> rfl
  | attrs =>
    cases hr
    rw [refinedName]
    split <;> rfl
  | bool =>
    obtain ⟨marker, -, hr⟩ := bind_eq_ok.1 hr
    split at hr <;> (cases pure_eq_ok.1 hr; rfl)
  | enum =>
    obtain ⟨marker, -, hr⟩ := bind_eq_ok.1 hr
    cases pure_eq_ok.1 hr
    rfl
  | _ =>
    cases hr
    rfl

theorem resolve_name_ne (sort : Option OptionType)
    (hshows : (!choices.isEmpty || sort.any OptionType.isSettled ||
      (!e.objectArray || sort == some .custom) && (sort.isSome || e.shape.settles e.declaredShape)) = false)
    {r r' : Resolution} (hr : p.resolveDefault s (classify ⟨sort, e, choices⟩) e choices sort = .ok r)
    (hr' : p.resolveDefault s (classify ⟨sort, e.behindAlias y, choices⟩) (e.behindAlias y) choices sort =
      .ok r') : r.1 ≠ r'.1 := by
  have hliteral' : (e.behindAlias y).literal = none := hliteral
  simp only [Bool.or_eq_false_iff, Bool.and_eq_false_iff, Bool.not_eq_false'] at hshows
  obtain ⟨⟨hempty, hunsettled⟩, hmore⟩ := hshows
  have hboolean : choices.areBoolean = false := by
    unfold Choices.areBoolean
    rw [List.isEmpty_iff.1 hempty]
  rw [resolveDefault_name_type h hliteral hstrings hr, resolveDefault_name_type h' hliteral' rfl hr',
    classify_name h hliteral hstrings, classify_name h' hliteral' rfl, hboolean, hempty]
  exact refinedName_ne hunsettled (fun hobjects => (h.objectArray hobjects hliteral).1) hmore

end
end Resolution

/-! ### Settings with a second name for a default -/

namespace Project

/-- What a default shows under its name and under a second one, `y`. An accessor is the same anyway. -/
inductive ShownBehind (y : Site) : Evidence → Evidence → Prop where
  | accessor : ShownBehind y { shape := .getter, getter := true } { shape := .getter, getter := true }
  | name {e : Evidence} : OfName e → OfName (e.behindAlias y) → ShownBehind y e (e.behindAlias y)

/-- Two settings with one default but for its name: a variable in one, and a second name for it in the
other. Neither following the second name nor evaluating it is cut off. -/
structure RenamesDefault (p : Project) (s s' y : Site) : Prop where
  settings : s.AlikeBut "default" s'
  renamed : s'.memberValue? "default" = .ok (some y)
  named : ∃ x d init other second, s.memberValue? "default" = .ok (some x) ∧ p.NamesVariable x d init ∧
    p.IsAlias y other second d init
  ends : p.EndsAbove y
  stays : p.StaysAbove y []

variable {p : Project} {s s' y : Site} {e e' : Evidence}

/-- No type is written around a name that is the default of a setting. -/
theorem declaredShape_default {x : Site} (hdefault : s.memberValue? "default" = .ok (some x))
    (hx : x.hasKind .identifier = true) : x.declaredShape? = none := by
  obtain ⟨value, hvalue, h⟩ := bind_eq_ok.1 hdefault
  cases value with
  | some value =>
    cases pure_eq_ok.1 h
    obtain ⟨-, member, -, hpair, -, hvalue⟩ := exists_pair_of_propertyValue hvalue
    obtain ⟨part, -, rfl⟩ := Option.map_eq_some_iff.1 hvalue
    have hparent : (member.inside part).parent? = some member := rfl
    have hdeclares : member.hasKind .variableDeclarator = false := by
      rw [Site.hasKind, Node.hasKind, eq_of_beq hpair]
      rfl
    rw [Site.declaredShape?, assertedShape_eq_none hx, hparent]
    dsimp only
    rw [hdeclares]
    rfl
  | none =>
    -- a name that is written alone is no expression
    dsimp only at h
    split at h
    · have halone := List.find?_some (pure_eq_ok.1 h)
      rw [Site.isShorthand, Site.hasKind, Node.hasKind, eq_of_beq hx] at halone
      cases halone
    · cases pure_eq_ok.1 h

theorem RenamesDefault.inspectDefault (h : p.RenamesDefault s s' y) :
    Parallel (ShownBehind y) (p.inspectDefault s) (p.inspectDefault s') := by
  obtain ⟨x, d, init, other, second, hx, hnames, halias⟩ := h.named
  unfold Project.inspectDefault
  refine (h.settings.getter "default").bind fun g g' hg => ?_
  rw [← option_rel_isSome hg]
  split
  · exact .ok .accessor
  · rw [hx, h.renamed]
    dsimp only [bind, Except.bind]
    have hbare := declaredShape_default hx hnames.isName
    have hbare' := declaredShape_default h.renamed halias.names.isName
    have hbehind := IsAlias.nameEvidence_eq hnames halias h.ends h.stays
    rw [hnames.inspectInitializer_eq hbare, halias.names.inspectInitializer_eq hbare', hbehind]
    cases he : p.nameEvidence x d init with
    | error f => exact .fault
    | ok e =>
      rw [he] at hbehind
      exact .ok (.name (hnames.ofName hbare he) (halias.names.ofName hbare' hbehind))

/-- What a setting shows under either name of its default. -/
structure Inspection.ShownBehind (y : Site) (i i' : Inspection) : Prop where
  optionType : Outcome.Alike Eq i.optionType i'.optionType
  choices : i.choices = i'.choices
  evidence : Project.ShownBehind y i.evidence i'.evidence

theorem RenamesDefault.inspect (h : p.RenamesDefault s s' y) :
    Parallel (Inspection.ShownBehind y) (p.inspect s) (p.inspect s') := by
  have c := Site.Aside.correspondence p
  unfold Project.inspect
  refine (c.optionTypeOf h.settings.settingsAlike).bind fun t t' ht => ?_
  refine (c.choicesOf h.settings.settingsAlike).bind fun choices _ heq => heq ▸ ?_
  exact h.inspectDefault.bind fun e e' he => .ok ⟨ht, rfl, he⟩

/-- What shows through has the same type and default. -/
theorem ShownBehind.resolve_eq {i : Inspection} (h : ShownBehind y i.evidence e')
    (hshows : i.showsThrough = true) :
    p.resolveDefault s (classify i.observation) i.evidence i.choices i.sort? =
      p.resolveDefault s (classify ⟨i.sort?, e', i.choices⟩) e' i.choices i.sort? := by
  obtain ⟨t, choices, e⟩ := i
  unfold Inspection.showsThrough at hshows
  unfold Inspection.observation
  dsimp only at h hshows ⊢
  cases h with
  | accessor => rfl
  | name h h' =>
    cases hliteral : e.literal with
    | some v =>
      have hconstant := h.constant (by rw [hliteral]; rfl)
      rw [← classify_constant_behindAlias hconstant h']
      unfold resolveDefault
      rw [show (e.behindAlias y).literal = some v from hliteral, hliteral]
    | none =>
      rw [hliteral, Option.isSome_none, Bool.false_or, Bool.and_eq_true, Bool.not_eq_true'] at hshows
      exact resolve_name_eq h h' hliteral hshows.1 _ hshows.2

/-- What does not show through has another type. -/
theorem ShownBehind.resolve_ne {i : Inspection} (h : ShownBehind y i.evidence e')
    (hshows : i.showsThrough = false) {r r' : Resolution}
    (hr : p.resolveDefault s (classify i.observation) i.evidence i.choices i.sort? = .ok r)
    (hr' : p.resolveDefault s (classify ⟨i.sort?, e', i.choices⟩) e' i.choices i.sort? = .ok r') :
    r.1 ≠ r'.1 := by
  obtain ⟨t, choices, e⟩ := i
  unfold Inspection.showsThrough at hshows
  unfold Inspection.observation at hr
  dsimp only at h hshows hr hr'
  rw [Bool.or_eq_false_iff, Option.isSome_eq_false_iff, Option.isNone_iff_eq_none] at hshows
  obtain ⟨hliteral, hshows⟩ := hshows
  cases h with
  | accessor =>
    simp [Shape.settles] at hshows
  | name h h' =>
    cases hstrings : e.stringArray with
    | false =>
      rw [hstrings] at hshows
      exact resolve_name_ne h h' hliteral hstrings _ hshows hr hr'
    | true =>
      -- a list of texts has its own type, which no other name gets
      rw [resolveDefault_name_type h' hliteral rfl hr', classify_name h' hliteral rfl]
      unfold resolveDefault at hr
      rw [hliteral] at hr
      dsimp only at hr
      rw [if_pos hstrings] at hr
      cases hr
      refine (refinedName_ne_listOfStr ?_).symm
      split
      · decide
      · split
        · exact targetOfName_ne_listOfStr
        · decide

theorem settingOf_target {name : String} {choices : Choices} {r : Resolution} {o : Setting}
    (h : settingOf name s choices r = .ok (.ok o)) : o.target = r.1 := by
  obtain ⟨target, default⟩ := r
  unfold settingOf at h
  dsimp only at h
  split at h
  · cases pure_eq_ok.1 h
  · split at h
    · cases pure_eq_ok.1 h
    · obtain ⟨description, -, h⟩ := bind_eq_ok.1 h
      obtain ⟨example?, -, h⟩ := bind_eq_ok.1 h
      obtain ⟨hidden, -, h⟩ := bind_eq_ok.1 h
      obtain ⟨restartNeeded, -, h⟩ := bind_eq_ok.1 h
      cases pure_eq_ok.1 h
      rfl

theorem OfName.present (h : OfName e) : (e.shape == .absent) = false := by
  cases hliteral : e.literal with
  | some v =>
    rw [(h.constant (by rw [hliteral]; rfl)).shape]
    rfl
  | none =>
    have hshape := h.shape hliteral
    simp only [List.mem_cons, List.not_mem_nil, or_false] at hshape
    rcases hshape with hs | hs | hs | hs | hs <;> (rw [hs]; rfl)

theorem ShownBehind.present (h : ShownBehind y e e') :
    (e.shape == .absent) = false ∧ (e'.shape == .absent) = false := by
  cases h with
  | accessor => exact ⟨rfl, rfl⟩
  | name h h' => exact ⟨h.present, h'.present⟩

/-- A setting with a default is settled, whatever became of its sort. -/
theorem extractSetting_present {name : String} {i : Inspection} (hi : p.inspect s = .ok i)
    (hpresent : (i.evidence.shape == .absent) = false) :
    p.extractSetting name s = p.settledAs name s i := by
  rw [extractSetting_eq, hi]
  dsimp only [bind, Except.bind]
  rw [hpresent]
  cases i.optionType <;> rfl

end Project

/-- The same evidence of one default, aside. -/
theorem evidence_alike_refl (e : Evidence) : Evidence.Alike Site.Aside e e :=
  ⟨option_rel_refl (Unwrapped Site.Aside) (fun s => Site.Aside.refl s.unwrap) _, rfl⟩

/-- **Second names.** A setting is the same with a second name for its default if what decides its type
shows through the second name, and has another type if not. -/
theorem second_name_alike {p : Project} {s s' y : Site} (h : p.RenamesDefault s s' y) (name : String) :
    ((∀ i, p.inspect s = .ok i → i.showsThrough = true) →
      p.extractSetting name s = p.extractSetting name s') ∧
    ∀ o o', p.extractSetting name s = .ok (.ok o) → p.extractSetting name s' = .ok (.ok o') →
      o.target = o'.target → ∃ i, p.inspect s = .ok i ∧ i.showsThrough = true := by
  have c := Site.Aside.correspondence p
  have hinspect := h.inspect
  generalize hi : p.inspect s = x at hinspect
  generalize hi' : p.inspect s' = x' at hinspect
  cases hinspect with
  | fault =>
    rw [extractSetting_eq, extractSetting_eq, hi, hi']
    exact ⟨fun _ => rfl, fun o o' ho => nomatch ho⟩
  | @ok i i' hshown =>
    obtain ⟨hpresent, hpresent'⟩ := hshown.evidence.present
    rw [extractSetting_present hi hpresent, extractSetting_present hi' hpresent']
    -- the other setting is settled as this one would be with the evidence of the second name
    have hsettled : p.settledAs name s { i with evidence := i'.evidence } = p.settledAs name s' i' :=
      (c.settledAs (i := { i with evidence := i'.evidence }) name h.settings.settingsAlike
        ⟨hshown.optionType, hshown.choices, evidence_alike_refl _⟩).eq
    rw [← hsettled]
    unfold settledAs
    constructor
    · intro hshows
      rw [hshown.evidence.resolve_eq (hshows i rfl)]
      rfl
    · intro o o' ho ho' htarget
      refine ⟨i, rfl, ?_⟩
      by_contra hno
      obtain ⟨r, hr, ho⟩ := bind_eq_ok.1 ho
      obtain ⟨r', hr', ho'⟩ := bind_eq_ok.1 ho'
      refine hshown.evidence.resolve_ne (Bool.eq_false_iff.2 hno) hr hr' ?_
      rw [← settingOf_target ho, ← settingOf_target ho', htarget]

/-! ### Lists under two names -/

/-- A variable, a second name for it, and a setting with either as its default. -/
def aliasProgram (value : Node) : Node :=
  .tree .program none
    [constantNode "" "X" value, constantNode "\n" "Y" (.leaf .identifier none " " "X"),
     probeNode (customSetting (.leaf .identifier none " " "X")),
     probeNode (customSetting (.leaf .identifier none " " "Y"))]

/-- The setting of such a program with a default by name. -/
def aliasSetting (value : Node) (name : String) : Site :=
  probedSite (aliasProgram value) (customSetting (.leaf .identifier none " " name))

/-- The first arguments of all calls in a program. -/
def firstArguments (program : Node) : List Site :=
  ((siteOf program).walk.filter (·.hasKind .arguments)).filterMap (·.named.head?)

/-- The list `[{}]`. -/
def objectsLiteral : Node :=
  .tree .array none [.token none " " "[", objectLiteral [], .token none "" "]"]

/-- The list `["a"]`. -/
def textsLiteral : Node :=
  .tree .array none [.token none " " "[", textLiteral "a", .token none "" "]"]

theorem renamesDefault_lists {value : Node} (h : value = objectsLiteral ∨ value = textsLiteral) :
    ∃ y, bareProject.RenamesDefault (aliasSetting value "X") (aliasSetting value "Y") y := by
  have hsettings : (aliasSetting value "X").AlikeBut "default" (aliasSetting value "Y") :=
    ⟨rfl, .apart rfl rfl nofun (.apart rfl rfl nofun (.apart rfl rfl nofun (.same _))), nofun, rfl, rfl,
      .cons (.inl rfl) (.cons (.inr ⟨⟨rfl, rfl⟩, ⟨rfl, rfl⟩⟩) .nil)⟩
  rcases h with rfl | rfl
  all_goals
    exact ⟨_, hsettings, rfl, ⟨_, _, _, _, _, rfl, ⟨rfl, by decide, rfl, rfl⟩,
      ⟨rfl, by decide, rfl, rfl⟩, rfl, rfl, ⟨rfl, by decide, rfl, rfl⟩⟩,
      .of_answer (f := .endlessReference) rfl, .of_answer (f := .endlessReference) rfl⟩

set_option maxRecDepth 4000 in
theorem renamed_objects_alike :
    parse .plain ("const X = [\x7b\x7d];\nconst Y = X;\n" ++
      "probe(\x7b type: OptionType.CUSTOM, default: X \x7d);\n" ++
      "probe(\x7b type: OptionType.CUSTOM, default: Y \x7d);") = aliasProgram objectsLiteral ∧
    ∃ s s' y, firstArguments (aliasProgram objectsLiteral) = [s, s'] ∧ bareProject.RenamesDefault s s' y ∧
      (bareProject.inspect s).toOption.map (·.showsThrough) = some true ∧
      (bareProject.inspectDefault s).toOption.map (·.objectArray) = some true ∧
      (bareProject.inspectDefault s').toOption.map (·.objectArray) = some false ∧
      targetOf (bareProject.extractSetting "a" s) = some .listOfAttrs ∧
      bareProject.extractSetting "a" s = bareProject.extractSetting "a" s' := by
  obtain ⟨y, hrenames⟩ := renamesDefault_lists (.inl rfl)
  have hshows : (bareProject.inspect (aliasSetting objectsLiteral "X")).toOption.map (·.showsThrough) =
      some true := by decide +kernel
  refine ⟨by decide +kernel, aliasSetting objectsLiteral "X", aliasSetting objectsLiteral "Y", y, rfl,
    hrenames, hshows, by decide +kernel, by decide +kernel, by decide +kernel, ?_⟩
  refine (second_name_alike hrenames "a").1 fun i hi => ?_
  rw [hi] at hshows
  exact Option.some.inj hshows

set_option maxRecDepth 4000 in
theorem renamed_texts_lost :
    parse .plain ("const X = [\"a\"];\nconst Y = X;\n" ++
      "probe(\x7b type: OptionType.CUSTOM, default: X \x7d);\n" ++
      "probe(\x7b type: OptionType.CUSTOM, default: Y \x7d);") = aliasProgram textsLiteral ∧
    ∃ s s' y, firstArguments (aliasProgram textsLiteral) = [s, s'] ∧ bareProject.RenamesDefault s s' y ∧
      targetOf (bareProject.extractSetting "a" s) = some .listOfStr ∧
      targetOf (bareProject.extractSetting "a" s') = some .listOfAttrs := by
  obtain ⟨y, hrenames⟩ := renamesDefault_lists (.inr rfl)
  exact ⟨by decide +kernel, aliasSetting textsLiteral "X", aliasSetting textsLiteral "Y", y, rfl, hrenames,
    by decide +kernel, by decide +kernel⟩

end SettingsHarvest
