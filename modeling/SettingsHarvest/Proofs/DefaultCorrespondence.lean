import Mathlib.Data.List.Find
import SettingsHarvest.Proofs.EvidenceCorrespondence

/-! Types and defaults of corresponding settings.

Evidence that is alike is classified alike. The marker of an option, the fields of a call that is given
an object, and the texts of a setting are found alike as well, so corresponding settings are extracted
as the same setting (`SettingCorrespondence.extractSetting`). -/
namespace SettingsHarvest
open Syntax Project

theorem Project.markerInMap_eq (p : Project) (call : Site) :
    p.markerInMap? call = (do
      match ← p.mapCallback? call with
      | none => return none
      | some callback => match callbackObject? callback with
        | none => return none
        | some body => match ← body.memberValue? "default" with
          | none => return none
          | some marker => p.markedBy? call callback body marker (← p.mapReceiver? call)) := by
  unfold markerInMap? markedBy? mapReceiver?
  refine bind_congr fun callback => ?_
  cases callback with
  | none => rfl
  | some callback =>
    dsimp only
    cases callbackObject? callback with
    | none => rfl
    | some body =>
      refine bind_congr fun marker => ?_
      cases marker with
      | none => rfl
      | some marker => cases call.receiver? <;> rfl

namespace Project

/-- What one element of a list, without wrappers, has marked. -/
def markedAt (p : Project) (inside : Site → Attempt (Option Value)) (e : Site) : Attempt (Option Value) :=
  if e.hasKind .spreadElement then do
    let source ← match e.spreadSource? with
      | some s => p.array? s
      | none => pure none
    match source with
    | some list => inside list
    | none => return none
  else if e.hasKind .object then p.markedValue? e
  else .ok none

/-- The value of the option that an `options` expression has marked. -/
def markerIn? (p : Project) (options : Site) : Attempt (Option Value) := do
  let e ← p.optionsExpression options
  if e.hasKind .array then p.markerInList? e
  else if e.isMethodCall "map" then p.markerInMap? e
  else return none

theorem defaultMarker_eq (p : Project) (setting : Site) :
    p.defaultMarker? setting = (do
      match ← setting.memberValue? "options" with
      | none => return none
      | some options => p.markerIn? options) := rfl

/-- A setting from its type and default, the rest read from its object literal. -/
def settingOf (name : String) (object : Site) (choices : Choices) :
    Resolution → Attempt (Outcome Setting)
  | (target, default) => do
    let isEnum := target == .enum
    if isEnum && choices.isEmpty then return .error (.noChoices name)
    if isEnum && default.isNone then return .error (.noDefault name)
    let description ← object.settingDescription?
    let labels := if isEnum && !choices.labels.isEmpty then some choices.labels else none
    let example? ← object.settingExample? description
    let hidden ← object.flagMember "hidden"
    let restartNeeded ← object.flagMember "restartNeeded"
    return .ok
      { name, target, description, default, labels, hidden, restartNeeded
        choices := if isEnum then some choices.values else none
        example? := example? }

/-- A setting from its inspection. -/
def settledAs (p : Project) (name : String) (object : Site) (i : Inspection) :
    Attempt (Outcome Setting) := do
  let resolution ← p.resolveDefault object (classify i.observation) i.evidence i.choices i.sort?
  settingOf name object i.choices resolution

theorem extractSetting_eq (p : Project) (name : String) (object : Site) :
    p.extractSetting name object = (do
      let i ← p.inspect object
      match i.optionType, i.evidence.shape == .absent && i.choices.isEmpty with
      | .error f, true => return .error f
      | _, _ => p.settledAs name object i) := rfl

end Project

/-- Fields with the same values, and failures of corresponding pairs. -/
structure Project.Fields.Alike (Same : Site → Site → Prop) (f f' : Fields) : Prop where
  values : f.values = f'.values
  failures : List.Forall₂ (fun e e' => e.1 = e'.1 ∧ Unwrapped Same e.2.1 e'.2.1) f.failures f'.failures

/-- Evidence that is alike differs in where the default is at most. -/
theorem Evidence.Alike.eq {Same : Site → Site → Prop} {e e' : Evidence} (h : Evidence.Alike Same e e') :
    ∃ initializer', e' = { e with initializer := initializer' } := by
  refine ⟨e'.initializer, ?_⟩
  have hrest := h.rest
  cases e
  cases e'
  cases hrest
  rfl

/-- Of the default itself the rules see only whether it is an empty list. -/
theorem classify_initializer {e : Evidence} {init : Option Site}
    (hempty : e.isEmptyArray = Evidence.isEmptyArray { e with initializer := init }) (t : Option OptionType)
    (choices : Choices) : classify ⟨t, e, choices⟩ = classify ⟨t, { e with initializer := init }, choices⟩ := by
  have hholds : ∀ r ∈ rules,
      r.holds ⟨t, e, choices⟩ = r.holds ⟨t, { e with initializer := init }, choices⟩ := by
    simp [rules, hempty, Observation.declares, Observation.hasShape, Observation.hasSort,
      Observation.component, Observation.inferred]
  unfold classify matchingRule?
  rw [List.find?_congr hholds]

/-- Inspections that decide the same. -/
structure Project.Inspection.Alike (Same : Site → Site → Prop) (i i' : Inspection) : Prop where
  optionType : Outcome.Alike Eq i.optionType i'.optionType
  choices : i.choices = i'.choices
  evidence : Evidence.Alike Same i.evidence i'.evidence

/-- The members of a setting that are read as texts. -/
def textKeys : List String := ["description", "name", "placeholder"]

/-- The members of a setting that are flags. -/
def flagKeys : List String := ["hidden", "restartNeeded"]

/-- Two settings that show the same in their members, their defaults aside. -/
structure Project.SettingsShown (p p' : Project) (s s' : Site) : Prop where
  text (key : String) : key ∈ textKeys → Parallel Eq (s.textMember? key) (s'.textMember? key)
  flag (key : String) : key ∈ flagKeys → Parallel Eq (s.flagMember key) (s'.flagMember key)
  optionType : Parallel (Outcome.Alike Eq) (p.optionTypeOf s) (p'.optionTypeOf s')
  choices : Parallel Eq (p.choicesOf s) (p'.choicesOf s')
  marker : Parallel Eq (p.defaultMarker? s) (p'.defaultMarker? s')

namespace Project.SettingsShown

variable {p p' : Project} {s s' : Site}

theorem description (h : p.SettingsShown p' s s') :
    Parallel Eq s.settingDescription? s'.settingDescription? := by
  unfold Site.settingDescription?
  refine (h.text "description" (by decide)).bind fun d _ heq => heq ▸ ?_
  cases d with
  | some d => exact (h.flag "restartNeeded" (by decide)).bind fun flag _ heq => heq ▸ .ok rfl
  | none =>
    refine (h.text "name" (by decide)).bind fun d _ heq => heq ▸ ?_
    cases d with
    | none => exact .ok rfl
    | some d => exact (h.flag "restartNeeded" (by decide)).bind fun flag _ heq => heq ▸ .ok rfl

theorem placeholder (h : p.SettingsShown p' s s') (description : Option String) :
    Parallel Eq (s.settingExample? description) (s'.settingExample? description) := by
  unfold Site.settingExample?
  exact (h.text "placeholder" (by decide)).bind fun e _ heq => heq ▸ .refl _

theorem settingOf (name : String) (choices : Choices) (r : Resolution) (h : p.SettingsShown p' s s') :
    Parallel Eq (settingOf name s choices r) (settingOf name s' choices r) := by
  obtain ⟨target, default⟩ := r
  unfold Project.settingOf
  dsimp only
  split
  · exact .ok rfl
  · split
    · exact .ok rfl
    · refine h.description.bind fun description _ heq => heq ▸ ?_
      refine (h.placeholder description).bind fun e _ heq => heq ▸ ?_
      refine (h.flag "hidden" (by decide)).bind fun hidden _ heq => heq ▸ ?_
      exact (h.flag "restartNeeded" (by decide)).bind fun restartNeeded _ heq => heq ▸ .ok rfl

/-- Settings that show the same, default included, are inspected alike. -/
theorem inspect {Same : Site → Site → Prop} (h : p.SettingsShown p' s s')
    (hevidence : Parallel (Evidence.Alike Same) (p.inspectDefault s) (p'.inspectDefault s')) :
    Parallel (Inspection.Alike Same) (p.inspect s) (p'.inspect s') := by
  unfold Project.inspect
  refine h.optionType.bind fun t t' ht => ?_
  refine h.choices.bind fun choices _ heq => heq ▸ ?_
  exact hevidence.bind fun e e' he => .ok ⟨ht, rfl, he⟩

end Project.SettingsShown

theorem valueOf_alike {o o' : Outcome Value} (h : Outcome.Alike Eq o o') : valueOf? o = valueOf? o' := by
  cases h with
  | value heq => rw [heq]
  | failure => rfl

/-- Members that evaluate alike are the same value of an option. -/
theorem optionValue_alike {p p' : Project} {s s' : Site} {b b' : Bindings}
    (h : Parallel
      (Option.Rel fun v v' => Parallel (Outcome.Alike Eq) (p.evaluate v b) (p'.evaluate v' b'))
      (s.memberValue? "value") (s'.memberValue? "value")) :
    Parallel Eq (p.optionValue? s b) (p'.optionValue? s' b') := by
  unfold Project.optionValue?
  refine h.bind fun v v' hv => ?_
  cases hv with
  | none => exact .ok rfl
  | some hv => exact hv.bind fun _ _ ho => .ok (valueOf_alike ho)

theorem defaultMarker_alike {p p' : Project} {s s' : Site}
    (h : Parallel (Option.Rel fun v v' => Parallel Eq (p.markerIn? v) (p'.markerIn? v'))
      (s.memberValue? "options") (s'.memberValue? "options")) :
    Parallel Eq (p.defaultMarker? s) (p'.defaultMarker? s') := by
  rw [defaultMarker_eq, defaultMarker_eq]
  refine h.bind fun v v' hv => ?_
  cases hv with
  | none => exact .ok rfl
  | some hv => exact hv

namespace SettingCorrespondence

variable {p p' : Project} {Same Init : Site → Site → Prop} (c : SettingCorrespondence p p' Same Init)
  {s s' init init' : Site} {b b' : Bindings} {e e' : Evidence}

include c

/-! ### Markers -/

theorem comparisonHolds (h : Same s s') (hs : s.isScope = false) (hb : Bindings.Alike Same b b') :
    Parallel Eq (p.comparisonHolds s b) (p'.comparisonHolds s' b') := by
  unfold Project.comparisonHolds
  rw [← c.operator h]
  split
  · exact .ok rfl
  · refine (c.partValue (c.evaluateWithin _) h hs hb .left).bind fun left left' hleft => ?_
    refine (c.partValue (c.evaluateWithin _) h hs hb .right).bind fun right right' hright => ?_
    cases hleft with
    | failure => exact .ok rfl
    | value hx =>
      cases hright with
      | failure => exact .ok rfl
      | value hy => exact .ok (by rw [hx, hy])

theorem markerHolds (h : Unwrapped Same s s') (hb : Bindings.Alike Same b b') :
    Parallel Eq (p.markerHolds s b) (p'.markerHolds s' b') := by
  unfold Project.markerHolds
  dsimp only
  rw [← c.hasKind h, ← c.hasKind h]
  split
  · exact .ok rfl
  · split
    · next hkind => exact c.comparisonHolds h (Site.isScope_eq_false hkind rfl) hb
    · exact .ok rfl

theorem comparisonConstant (h : Unwrapped Same s s') :
    Parallel Eq (p.comparisonConstant? s) (p'.comparisonConstant? s') := by
  unfold Project.comparisonConstant?
  dsimp only
  rw [← c.hasKind h, ← c.operator h]
  split
  · next hcompares =>
    have hs := Site.isScope_eq_false (Bool.and_eq_true_iff.1 hcompares).1 rfl
    refine (c.partValue (c.evaluateWithin _) h hs .nil .right).bind fun right right' hright => ?_
    cases hright with
    | value heq => exact heq ▸ .ok rfl
    | failure =>
      exact (c.partValue (c.evaluateWithin _) h hs .nil .left).bind fun _ _ hleft =>
        .ok (valueOf_alike hleft)
  · exact .ok rfl

theorem optionValue (h : Same s s') (hb : Bindings.Alike Same b b') :
    Parallel Eq (p.optionValue? s b) (p'.optionValue? s' b') :=
  optionValue_alike ((c.memberValue h "value").mono fun _ _ ho =>
    option_rel_mono ho fun _ _ hv => c.evaluate hv hb)

theorem flagMember (h : SettingsAlike Same s s') (key : String) (hkey : key ≠ "default") :
    Parallel Eq (s.flagMember key) (s'.flagMember key) := by
  unfold Site.flagMember
  refine (h key hkey).bind fun v v' hv => .ok ?_
  cases hv with
  | none => rfl
  | some hv => exact c.hasKind hv _

theorem markedValue (h : Same s s') : Parallel Eq (p.markedValue? s) (p'.markedValue? s') := by
  unfold Project.markedValue?
  refine (c.memberValue h "default").bind fun v v' hv => ?_
  have hmarked : v.any Site.isTrue = v'.any Site.isTrue := by
    cases hv with
    | none => rfl
    | some hv => exact c.hasKind hv _
  rw [← hmarked]
  split
  · exact c.optionValue h .nil
  · exact .ok rfl

/-- What an element marks, if what is marked in lists spread in is found alike. -/
theorem markedAt {inside inside' : Site → Attempt (Option Value)}
    (hinside : ∀ list list', Same list list' → Parallel Eq (inside list) (inside' list'))
    (h : Same s s') : Parallel Eq (p.markedAt inside s) (p'.markedAt inside' s') := by
  unfold Project.markedAt
  rw [← c.hasKind h, ← c.hasKind h]
  split
  · rcases option_rel_cases (c.spreadSource h) with ⟨ht, ht'⟩ | ⟨t, t', ht, ht', hs⟩
    · rw [ht, ht']
      exact .ok rfl
    · rw [ht, ht']
      refine (c.array hs).bind fun list list' hlist => ?_
      cases hlist with
      | none => exact .ok rfl
      | some hlist => exact hinside _ _ hlist.1
  · split
    · exact c.markedValue h
    · exact .ok rfl

theorem markedAmong {inside inside' : Site → Attempt (Option Value)} {elements elements' : List Site}
    (hinside : ∀ list list', Same list list' → Parallel Eq (inside list) (inside' list'))
    (h : List.Forall₂ (Unwrapped Same) elements elements') :
    Parallel Eq (p.markedAmong inside elements) (p'.markedAmong inside' elements') :=
  (Parallel.firstSome (Q := Eq) h fun _ _ he =>
    (c.markedAt hinside he).mono fun _ _ => option_rel_of_eq).mono fun _ _ => option_rel_eq

theorem markerInList (h : Same s s') : Parallel Eq (p.markerInList? s) (p'.markerInList? s') :=
  c.markedAmong (fun _ _ hlist => c.markedAmong (fun _ _ _ => .ok rfl) (c.parts hlist))
    (c.parts h)

theorem firstMarked {body body' marker marker' : Site} (hbody : Same body body')
    (hmarker : Unwrapped Same marker marker') (hb : Bindings.Alike Same b b') :
    Parallel Eq (p.firstMarked? body marker b) (p'.firstMarked? body' marker' b') := by
  unfold Project.firstMarked?
  refine (c.markerHolds hmarker hb).bind fun holds _ heq => heq ▸ ?_
  split
  · exact c.optionValue hbody hb
  · exact .ok rfl

theorem firstKey {r r' : Option Site} (h : Option.Rel Same r r') :
    Parallel Eq (p.firstKey? r) (p'.firstKey? r') := by
  unfold Project.firstKey?
  rcases option_rel_cases (c.keysArgument h) with ⟨ha, ha'⟩ | ⟨a, a', ha, ha', hargument⟩
  · rw [ha, ha']
    exact .ok rfl
  · rw [ha, ha']
    refine (c.object hargument).bind fun table table' htable => ?_
    cases htable with
    | none => exact .ok rfl
    | some htable =>
      refine (Parallel.firstSome (Q := Eq) (c.pairs htable.1 htable.2) fun pair pair' hpair => ?_).mono
        fun _ _ => option_rel_eq
      rw [← c.memberKey hpair.2]
      refine .same_bind _ fun key _ => .ok ?_
      cases key with
      | none => exact .none
      | some key => exact .some rfl

theorem orLeftBehind {marker marker' : Site} {r r' : Option Site} (hmarker : Unwrapped Same marker marker')
    (hr : Option.Rel Same r r') (marked : Option Value) :
    Parallel Eq (p.orLeftBehind? marker r marked) (p'.orLeftBehind? marker' r' marked) := by
  cases marked with
  | some v => exact .ok rfl
  | none =>
    refine (c.comparisonConstant hmarker).bind fun v _ heq => heq ▸ ?_
    cases v with
    | some v => exact .ok rfl
    | none => exact c.firstKey hr

theorem markedBy {callback callback' body body' marker marker' : Site} {r r' : Option Site}
    (h : Same s s') (hcallback : Same callback callback') (hbody : Same body body')
    (hmarker : Unwrapped Same marker marker') (hr : Option.Rel Same r r') :
    Parallel Eq (p.markedBy? s callback body marker r) (p'.markedBy? s' callback' body' marker' r') := by
  unfold Project.markedBy?
  refine (c.mapElements (c.receiver h)).bind fun elements elements' helements => ?_
  have hinputs : List.Forall₂ (Bindings.Alike Same) (callbackInputs callback elements)
      (callbackInputs callback' elements') := by
    unfold callbackInputs
    rw [← c.parameterNames hcallback]
    refine elementBindings _ ?_
    cases helements with
    | none => exact .nil
    | some helements => exact helements
  refine Parallel.bind (P := Eq) ((Parallel.firstSome (Q := Eq) hinputs fun b b' hb => ?_).mono
    fun _ _ => option_rel_eq) fun marked _ heq => heq ▸ c.orLeftBehind hmarker hr marked
  exact (c.firstMarked hbody hmarker hb).mono fun _ _ => option_rel_of_eq

theorem markerInMap (h : Same s s') : Parallel Eq (p.markerInMap? s) (p'.markerInMap? s') := by
  rw [markerInMap_eq, markerInMap_eq]
  refine (c.mapCallback h).bind fun callback callback' hcallback => ?_
  cases hcallback with
  | none => exact .ok rfl
  | some hcallback =>
    dsimp only
    rcases option_rel_cases (c.callbackObject hcallback) with
      ⟨hb, hb'⟩ | ⟨body, body', hb, hb', hbody⟩
    · rw [hb, hb']
      exact .ok rfl
    · rw [hb, hb']
      refine (c.memberValue hbody "default").bind fun marker marker' hmarker => ?_
      cases hmarker with
      | none => exact .ok rfl
      | some hmarker =>
        exact (c.mapReceiver h).bind fun r r' hr => c.markedBy h hcallback hbody hmarker hr

theorem markerIn (h : Unwrapped Same s s') : Parallel Eq (p.markerIn? s) (p'.markerIn? s') := by
  unfold Project.markerIn?
  refine (c.optionsExpression h).bind fun e e' he => ?_
  rw [← c.hasKind he, ← c.method he]
  split
  · exact c.markerInList he
  · split
    · exact c.markerInMap he
    · exact .ok rfl

theorem defaultMarker (h : SettingsAlike Same s s') : Parallel Eq (p.defaultMarker? s) (p'.defaultMarker? s') :=
  defaultMarker_alike ((h "options" (by decide)).mono fun _ _ ho => option_rel_mono ho fun _ _ => c.markerIn)

/-! ### Calls -/

theorem emptyCollection (h : Unwrapped Same s s') : emptyCollection? s = emptyCollection? s' := by
  rw [emptyCollection?, emptyCollection?, c.hasKind h, c.hasKind h]

theorem fieldsOf {pairs pairs' : List Site} (h : List.Forall₂ Same pairs pairs') :
    Parallel (Fields.Alike Same) (p.fieldsOf pairs) (p'.fieldsOf pairs') := by
  refine Parallel.foldlM (Q := Fields.Alike Same) h ⟨rfl, .nil⟩ fun f f' pair pair' hf hpair => ?_
  rw [← c.memberKey hpair]
  refine .same_bind _ fun key _ => ?_
  cases key with
  | none => exact .ok hf
  | some key =>
    rcases option_rel_cases (c.partOf hpair .value) with ⟨hv, hv'⟩ | ⟨v, v', hv, hv', hvalue⟩
    · rw [Site.pairValue?, Site.pairValue?, hv, hv']
      exact .ok hf
    · rw [Site.pairValue?, Site.pairValue?, hv, hv']
      refine (c.evaluate hvalue .nil).bind fun o o' ho => ?_
      cases ho with
      | value heq => exact .ok ⟨by rw [heq, hf.values], hf.failures⟩
      | failure =>
        exact .ok ⟨hf.values, List.rel_append hf.failures (.cons ⟨rfl, hvalue⟩ .nil)⟩

/-- A call that stands for an object has the same fields. -/
theorem foldCall (h : Same s s') : Parallel Eq (p.foldCall s) (p'.foldCall s') := by
  have hobject : Option.Rel (fun o o' => Same o o' ∧ o.hasKind .object = true)
      ((s.firstArgument?.map Site.unwrap).filter (·.hasKind .object))
      ((s'.firstArgument?.map Site.unwrap).filter (·.hasKind .object)) := by
    rcases option_rel_cases (c.firstArgument h) with ⟨ha, ha'⟩ | ⟨a, a', ha, ha', hsame⟩
    · rw [ha, ha']
      exact .none
    · rw [ha, ha', Option.map_some, Option.map_some, Option.filter_some, Option.filter_some,
        ← c.hasKind hsame]
      split
      · next hkind => exact .some ⟨hsame, hkind⟩
      · exact .none
  unfold Project.foldCall
  rcases option_rel_cases hobject with ⟨ho, ho'⟩ | ⟨o, o', ho, ho', hsame, hkind⟩
  · rw [ho, ho']
    exact (c.callShape h).bind fun shape _ heq => heq ▸ .ok rfl
  · rw [ho, ho']
    refine Parallel.bind (c.fieldsOf ((c.pairs hsame hkind).imp fun _ _ hpair => hpair.2))
      fun f f' hf => .ok ?_
    congr 1
    refine List.rel_foldl (R := fun e e' => e.1 = e'.1 ∧ Unwrapped Same e.2.1 e'.2.1) (P := Eq)
      (fun values _ hvalues e e' he => ?_) hf.values hf.failures
    obtain ⟨key, v, f⟩ := e
    obtain ⟨_, v', f'⟩ := e'
    obtain ⟨rfl, hv⟩ := he
    rw [← hvalues]
    dsimp only at hv ⊢
    rw [c.emptyCollection hv]

/-! ### Resolution -/

theorem isEmptyArray (h : Evidence.Alike Same e e') : e.isEmptyArray = e'.isEmptyArray := by
  unfold Evidence.isEmptyArray
  rcases option_rel_cases h.initializer with ⟨hi, hi'⟩ | ⟨init, init', hi, hi', hinit⟩
  · rw [hi, hi']
  · rw [hi, hi']
    dsimp only
    rw [c.hasKind hinit, forall₂_isEmpty (c.parts hinit)]

theorem classify (h : Evidence.Alike Same e e') (t : Option OptionType) (choices : Choices) :
    classify ⟨t, e, choices⟩ = classify ⟨t, e', choices⟩ := by
  have hempty := c.isEmptyArray h
  obtain ⟨initializer', rfl⟩ := h.eq
  exact classify_initializer hempty t choices

theorem attrsDefault (h : Evidence.Alike Same e e') :
    Parallel Eq (p.attrsDefault e) (p'.attrsDefault e') := by
  have hcall : Option.Rel Same ((e.initializer.map Site.unwrap).filter (·.hasKind .callExpression))
      ((e'.initializer.map Site.unwrap).filter (·.hasKind .callExpression)) :=
    option_rel_filter (option_rel_map h.initializer fun _ _ hinit => hinit) fun _ _ hs => c.hasKind hs _
  obtain ⟨initializer', rfl⟩ := h.eq
  unfold Project.attrsDefault
  dsimp only at hcall ⊢
  split
  · exact .ok rfl
  · rcases option_rel_cases hcall with ⟨ho, ho'⟩ | ⟨call, call', ho, ho', hsame⟩
    · rw [ho, ho']
      exact .refl _
    · rw [ho, ho']
      exact (c.foldCall hsame).bind fun v _ heq => heq ▸ .refl _

theorem resolveDefault (h : p.SettingsShown p' s s') (he : Evidence.Alike Same e e') (target : TargetType)
    (choices : Choices) (t : Option OptionType) :
    Parallel Eq (p.resolveDefault s target e choices t) (p'.resolveDefault s' target e' choices t) := by
  obtain ⟨initializer', rfl⟩ := he.eq
  unfold Project.resolveDefault
  dsimp only
  split
  · exact .ok rfl
  · split
    · exact .ok rfl
    · split
      · exact .ok rfl
      · exact .ok rfl
      · exact h.marker.bind fun v _ heq => heq ▸ .refl _
      · exact h.marker.bind fun v _ heq => heq ▸ .refl _
      · exact .ok rfl
      · exact .ok rfl
      · exact c.attrsDefault he
      · exact .ok rfl
      · exact .ok rfl

/-! ### Settings -/

theorem textMember (h : SettingsAlike Same s s') (key : String) (hkey : key ≠ "default") :
    Parallel Eq (s.textMember? key) (s'.textMember? key) := by
  unfold Site.textMember?
  refine (h key hkey).bind fun v v' hv => ?_
  cases hv with
  | none => exact .ok rfl
  | some hv =>
    dsimp only [Option.map_some]
    rw [← c.isStringLiteral hv]
    split
    · next hliteral =>
      rw [← c.stringValue hv hliteral]
      exact .refl _
    · exact .ok rfl

theorem shown (h : SettingsAlike Same s s') : p.SettingsShown p' s s' where
  text key hkey := c.textMember h key (ne_of_mem_of_not_mem hkey (by decide))
  flag key hkey := c.flagMember h key (ne_of_mem_of_not_mem hkey (by decide))
  optionType := c.optionTypeOf h
  choices := c.choicesOf h
  marker := c.defaultMarker h

theorem settles (name : String) (h : p.SettingsShown p' s s') {i i' : Inspection}
    (hi : Inspection.Alike Same i i') :
    Parallel Eq (p.settledAs name s i) (p'.settledAs name s' i') := by
  obtain ⟨optionType, choices, evidence⟩ := i
  obtain ⟨optionType', choices', evidence'⟩ := i'
  obtain ⟨htype, hchoices, hevidence⟩ := hi
  dsimp only at htype hchoices hevidence
  subst hchoices
  have hsort : Inspection.sort? ⟨optionType, choices, evidence⟩ =
      Inspection.sort? ⟨optionType', choices, evidence'⟩ := by
    cases htype with
    | value heq => exact congrArg (fun t => (valueOf? (.ok t)).join) heq
    | failure => rfl
  unfold Project.settledAs Inspection.observation
  rw [← hsort]
  dsimp only
  rw [← c.classify hevidence]
  exact (c.resolveDefault h hevidence _ _ _).bind fun r _ heq => heq ▸ h.settingOf name choices r

theorem settledAs (name : String) (h : SettingsAlike Same s s') {i i' : Inspection}
    (hi : Inspection.Alike Same i i') :
    Parallel Eq (p.settledAs name s i) (p'.settledAs name s' i') := c.settles name (c.shown h) hi

/-- Settings that show the same, default included, are extracted as the same setting. -/
theorem extractSetting_shown (name : String) (h : p.SettingsShown p' s s')
    (hevidence : Parallel (Evidence.Alike Same) (p.inspectDefault s) (p'.inspectDefault s')) :
    Parallel (Outcome.Alike Eq) (p.extractSetting name s) (p'.extractSetting name s') := by
  rw [extractSetting_eq, extractSetting_eq]
  refine (h.inspect hevidence).bind fun i i' hi => ?_
  have hsettled : Parallel (Outcome.Alike Eq) (p.settledAs name s i) (p'.settledAs name s' i') :=
    (c.settles name h hi).mono fun o _ heq => by
      rw [← heq]
      cases o with
      | ok setting => exact .value rfl
      | error f => exact .failure rfl
  obtain ⟨htype, hchoices, hevidence⟩ := hi
  have hshape : i.evidence.shape = i'.evidence.shape := by
    obtain ⟨initializer', heq⟩ := hevidence.eq
    rw [heq]
  rw [← hchoices, ← hshape]
  generalize i.optionType = t at htype
  generalize i'.optionType = t' at htype
  cases htype with
  | value heq => exact hsettled
  | failure hkind =>
    cases i.evidence.shape == .absent && i.choices.isEmpty with
    | false => exact hsettled
    | true => exact .ok (.failure hkind)

/-- **Settings.** Corresponding settings with defaults that are alike are extracted as the same
setting. -/
theorem extractSetting (name : String) (h : Same s s') (hs : s.hasKind .object = true)
    (hdefault : Parallel (Option.Rel (DefaultAlike Same)) (s.memberValue? "default")
      (s'.memberValue? "default")) :
    Parallel (Outcome.Alike Eq) (p.extractSetting name s) (p'.extractSetting name s') :=
  c.extractSetting_shown name (c.shown (c.settingsAlike h)) (c.inspectDefault h hs hdefault)

end SettingCorrespondence
end SettingsHarvest
