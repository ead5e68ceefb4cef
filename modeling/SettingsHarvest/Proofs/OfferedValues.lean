import SettingsHarvest.Proofs.CarefulRuns
import SettingsHarvest.Proofs.MappedLists

/-! The values that lists of options offer.

The choices of a list of options are read from its source, by the idiom it is written in. A program that
runs offers the items of the list it builds, or the `value` of those that are objects. Where a careful
run comes to such a list, whatever an idiom reads is among what is offered: the elements of a literal
(`literalList_items`), the options of objects and of lists that are spread (`objectList_offered`), and the
answers of a callback, which is given elements that stand for the items one by one (`callback_matches`). -/
namespace SettingsHarvest
open Syntax Project

section Options

variable {p : Project} {s e list body : Site} {b : Bindings} {steps layers : Nat} {scope : Scope}
  {d offered : ScriptValue} {items data : List ScriptValue} {v : Value} {label : Option String}
  {c : Choices}

/-- The value of an option object is what a run offers for the object. -/
theorem offer_of_optionOf (hobject : body.hasKind .object = true) (hb : Matches p b scope)
    (hrun : p.runWithin true steps scope body = some d) (hoffer : offer true d = some offered)
    (h : p.optionOf b body = .ok (.ok (v, label))) : offered = .constant v := by
  obtain ⟨value?, hvalue, h⟩ := bind_eq_ok.1 h
  cases value? with
  | none => cases pure_eq_ok.1 h
  | some value =>
    obtain ⟨outcome, houtcome, h⟩ := bind_eq_ok.1 h
    cases outcome with
    | error f => cases pure_eq_ok.1 h
    | ok w =>
      obtain ⟨label?, -, h⟩ := bind_eq_ok.1 h
      have hw : w = v := by
        cases label? with
        | none =>
          cases pure_eq_ok.1 h
          rfl
        | some labelSite =>
          obtain ⟨text, -, h⟩ := bind_eq_ok.1 h
          split at h <;>
          · cases pure_eq_ok.1 h
            rfl
      obtain ⟨fewer, writes, -, -, rfl⟩ := runWithin_object hobject hrun
      obtain ⟨fewer', hfield⟩ := get_of_memberValue hobject hrun hvalue hoffer
      exact eq_constant_of_evaluate hb hfield (hw ▸ houtcome)

/-- An element of a list of options is offered with the value that is read from it. -/
theorem offer_of_elementOption (hrun : p.runWithin true steps scope s = some d)
    (hoffer : offer true d = some offered) (h : p.elementOption s = .ok (.ok (v, label))) :
    offered = .constant v := by
  unfold elementOption at h
  split at h
  · next hobject => exact offer_of_optionOf hobject matches_nil hrun hoffer h
  · obtain ⟨outcome, houtcome, h⟩ := bind_eq_ok.1 h
    cases outcome with
    | error f => cases pure_eq_ok.1 h
    | ok w =>
      cases pure_eq_ok.1 h
      cases eq_constant_of_evaluate matches_nil hrun houtcome
      exact (Option.some.inj hoffer).symm

/-! ### Lists -/

/-- The constants of a list literal are among the items. -/
theorem literalList_items (hrun : p.runWithin true steps scope list = some (.list layers items))
    (h : literalList p list = .ok (some (.ok c))) (hv : v ∈ c.values) : .constant v ∈ items := by
  obtain ⟨harray, h⟩ := of_applied h
  split at h
  · exact absurd h applies_ne_doesNotApply
  · next hplain =>
    obtain ⟨outcomes, houtcomes, h⟩ := bind_eq_ok.1 h
    dsimp only at h
    split at h
    · cases applies_eq h
    · cases applies_eq h
      obtain ⟨outcome, houtcome, hvalue⟩ := List.mem_filterMap.1 hv
      obtain ⟨e, he, heval⟩ := (mem_mapM_iff houtcomes).1 houtcome
      obtain ⟨w, rfl⟩ : ∃ w, outcome = .ok w := by
        cases outcome with
        | ok w => exact ⟨w, rfl⟩
        | error f => cases hvalue
      cases Option.some.inj hvalue
      obtain ⟨fewer, slots, pieces, hnamed, hfills, hd⟩ := runWithin_array harray hrun
      cases hd
      have hspread : e.hasKind .spreadElement = false := by
        refine Bool.eq_false_iff.2 fun hspread => hplain (List.any_eq_true.2 ⟨e, he, ?_⟩)
        rw [Site.unwrap_eq_self hspread rfl, hspread, Bool.or_true]
      obtain ⟨d, hd, hrun⟩ := hfills.exists_item (hnamed ▸ he) hspread
      exact eq_constant_of_evaluate matches_nil hrun heval ▸ hd

/-- Each of the items is offered. -/
def AllOffered (items data : List ScriptValue) : Prop :=
  ∀ d ∈ items, ∃ offered ∈ data, offer true d = some offered

theorem allOffered (hdata : items.mapM (offer true) = some data) : AllOffered items data :=
  fun _ hd => exists_of_mem_forall₂ (forall₂_of_mapM hdata) hd

/-- A spread is no expression. -/
theorem not_spread (hrun : p.runWithin true steps scope s = some d) :
    s.hasKind .spreadElement = false := by
  refine Bool.eq_false_iff.2 fun hspread => ?_
  obtain ⟨fewer, -, hform⟩ := runWithin_self hspread rfl hrun
  unfold Project.runForm at hform
  rw [Site.kind_eq_of_hasKind hspread] at hform
  cases hform

/-- An element of a list literal, but for spreads, is offered with the value that is read from it. -/
theorem element_offered {slots : List (Option Site)} {pieces : List (Nat × List ScriptValue)}
    (hfills : Fills (p.runWithin true steps) scope slots pieces) (he : e ∈ slots.filterMap id)
    (hspread : e.hasKind .spreadElement = false) (hall : AllOffered (pieces.flatMap (·.2)) data)
    (h : p.elementOption e.unwrap = .ok (.ok (v, label))) : .constant v ∈ data := by
  obtain ⟨d, hd, hrun⟩ := hfills.exists_item he hspread
  obtain ⟨offered, hoffered, hoffer⟩ := hall d hd
  rw [← runWithin_unwrap] at hrun
  exact offer_of_elementOption hrun hoffer h ▸ hoffered

/-- The options of a list that is spread are offered with its items. -/
theorem innerOptions_offered (harray : list.hasKind .array = true)
    (hcomes : p.ComesTo list (.list layers items)) (hall : AllOffered items data)
    {options : List (Outcome (Value × Option String))} (h : p.innerOptions list = .ok options)
    (hv : .ok (v, label) ∈ options) : .constant v ∈ data := by
  obtain ⟨e', he', hoption⟩ := (mem_mapM_iff h).1 hv
  obtain ⟨he', hspread⟩ := List.mem_filter.1 he'
  obtain ⟨e, he, rfl⟩ := List.mem_map.1 he'
  obtain ⟨steps, scope, hrun⟩ := hcomes
  obtain ⟨fewer, slots, pieces, hnamed, hfills, hd⟩ := runWithin_array harray hrun
  cases hd
  refine element_offered hfills (hnamed ▸ he) (Bool.eq_false_iff.2 fun hyes => ?_) hall hoption
  rw [Site.unwrap_eq_self hyes rfl, hyes] at hspread
  cases hspread

/-- The options of a list literal are offered, those of lists that are spread into it among them. -/
theorem objectList_offered (hrun : p.runWithin true steps scope list = some (.list layers items))
    (hall : AllOffered items data) (h : objectList p list = .ok (some (.ok c))) (hv : v ∈ c.values) :
    .constant v ∈ data := by
  obtain ⟨harray, h⟩ := of_applied h
  obtain ⟨options, hoptions, h⟩ := bind_eq_ok.1 h
  obtain ⟨choices, hchoices, h⟩ := bind_eq_ok.1 h
  split at h
  · cases applies_eq h
  · cases applies_eq h
    obtain ⟨label, hoption⟩ := (Choices.mem_collect hchoices).1 hv
    obtain ⟨groups, hgroups, hflatten⟩ := bind_eq_ok.1 hoptions
    rw [← pure_eq_ok.1 hflatten] at hoption
    obtain ⟨group, hgroup, hoption⟩ := List.mem_flatten.1 hoption
    obtain ⟨e', he', hread⟩ := (mem_mapM_iff hgroups).1 hgroup
    obtain ⟨e, he, rfl⟩ := List.mem_map.1 he'
    obtain ⟨fewer, slots, pieces, hnamed, hfills, hd⟩ := runWithin_array harray hrun
    cases hd
    rw [← hnamed] at he
    by_cases hspread : e.hasKind .spreadElement = true
    · obtain ⟨source, d, hsource, hd, hsubset⟩ := hfills.subset_of_spread he hspread
      rw [Site.unwrap_eq_self hspread rfl, if_pos hspread, hsource] at hread
      obtain ⟨found, hfound, hread⟩ := bind_eq_ok.1 hread
      cases found with
      | none =>
        cases pure_eq_ok.1 hread
        cases List.mem_singleton.1 hoption
      | some inner =>
        obtain ⟨hdenoted, hinner⟩ := of_onlyKind hfound
        obtain ⟨steps', scope', hcomes⟩ := comesTo_of_denotedWithin hdenoted ⟨_, _, hd⟩
        obtain ⟨_, _, pieces', -, -, rfl⟩ := runWithin_array hinner hcomes
        have hall' : AllOffered (pieces'.flatMap (·.2)) data :=
          fun d hd => hall d (hsubset _ _ rfl hd)
        exact innerOptions_offered hinner ⟨steps', scope', hcomes⟩ hall' hread hoption
    · replace hspread : e.hasKind .spreadElement = false := Bool.eq_false_iff.2 hspread
      obtain ⟨d, -, hd⟩ := hfills.exists_item he hspread
      rw [← runWithin_unwrap] at hd
      rw [not_spread hd, if_neg Bool.false_ne_true] at hread
      obtain ⟨o, ho, hread⟩ := bind_eq_ok.1 hread
      cases pure_eq_ok.1 hread
      rw [← List.mem_singleton.1 hoption] at ho
      exact element_offered hfills he hspread hall ho

/-! ### Callbacks -/

/-- A call of one method is no call of another. -/
theorem not_methodCall {method other receiver : String} (h : s.isMethodCallOn receiver method = true)
    (hne : method ≠ other) : s.isMethodCall other = false := by
  have hcall := (Bool.and_eq_true_iff.1 h).1
  unfold Site.isMethodCall at hcall ⊢
  cases hcallee : s.callee? with
  | none => simp
  | some callee =>
    rw [hcallee] at hcall
    dsimp only at hcall ⊢
    obtain ⟨_, hcall⟩ := Bool.and_eq_true_iff.1 hcall
    cases hproperty : callee.part? .property with
    | none => simp
    | some name =>
      rw [hproperty] at hcall
      have htext : name.text = method := by simpa using (Bool.and_eq_true_iff.1 hcall).2
      simp [htext, hne]

theorem not_callsGlobal {method other receiver receiver' : String}
    (h : s.isMethodCallOn receiver method = true) (hne : method ≠ other) :
    p.callsGlobal scope s receiver' other = false := by
  rw [callsGlobal, Site.isMethodCallOn, not_methodCall h hne]
  simp only [Bool.false_and]

theorem isCall_of_methodCall {method : String} (h : s.isMethodCall method = true) :
    s.hasKind .callExpression = true := (Bool.and_eq_true_iff.1 h).1

theorem isCall_of_methodCallOn {receiver method : String} (h : s.isMethodCallOn receiver method = true) :
    s.hasKind .callExpression = true := isCall_of_methodCall (Bool.and_eq_true_iff.1 h).1

theorem runWithin_call (hcall : s.hasKind .callExpression = true)
    (hrun : p.runWithin true steps scope s = some d) :
    ∃ fewer, p.runCall true (p.runWithin true fewer) scope s = some d := by
  obtain ⟨fewer, -, hform⟩ := runWithin_self hcall rfl hrun
  unfold Project.runForm at hform
  rw [Site.kind_eq_of_hasKind hcall] at hform
  exact ⟨fewer, hform⟩

/-- A call of `Object.keys` or `Object.values` that comes to a list, to that of a table. -/
theorem runCall_of_entries {keys : Bool} {recur : Runner}
    (hcall : s.isMethodCallOn "Object" (if keys then "keys" else "values") = true)
    (hrun : p.runCall true recur scope s = some (.list layers items)) :
    ∃ argument literal fields, s.firstArgument? = some argument ∧
      recur scope argument = some (.record literal fields) ∧ literal.isTable = true ∧
      items = fields.map fun field => if keys then .constant (.text field.1) else field.2 := by
  have hentries : runEntries keys recur scope s = some (.list layers items) := by
    unfold Project.runCall at hrun
    rw [not_methodCall hcall (by cases keys <;> decide), if_neg Bool.false_ne_true] at hrun
    cases keys with
    | true =>
      split at hrun
      · exact hrun
      · rw [not_callsGlobal hcall (by decide), not_callsGlobal hcall (by decide)] at hrun
        cases hrun
    | false =>
      rw [not_callsGlobal hcall (by decide), if_neg Bool.false_ne_true] at hrun
      split at hrun
      · exact hrun
      · rw [not_callsGlobal hcall (by decide)] at hrun
        cases hrun
  unfold Project.runEntries at hentries
  split at hentries
  · next argument hargument =>
    obtain ⟨object, hobject, hentries⟩ := bind_eq_some.1 hentries
    split at hentries
    · next literal fields =>
      split at hentries
      · next htable =>
        cases hentries
        exact ⟨argument, literal, fields, hargument, hobject, htable, rfl⟩
      · cases hentries
    · cases hentries
  · cases hentries

/-- The values of pairs stand for those of the fields they write. -/
theorem values_stand {pairs : List (String × Site)} {fields : Scope}
    (h : List.Forall₂ (fun pair field => field.1 = pair.1 ∧
      ∃ value, pair.2.pairValue? = some value ∧ p.runWithin true steps scope value = some field.2)
      pairs fields) :
    List.Forall₂ (fun element d => (Element.bound element).Stands p d)
      (pairs.filterMap fun e => e.2.pairValue?.map Element.site) (fields.map (·.2)) := by
  induction h with
  | nil => exact .nil
  | cons hfield _ ih =>
    obtain ⟨-, value, hvalue, hrun⟩ := hfield
    rw [List.filterMap_cons, hvalue]
    exact .cons ⟨_, _, hrun⟩ ih

/-- The keys or values that a call lists stand for the items of the list that it comes to. -/
theorem entries_stand (keys : Bool) {elements : List Element}
    (hcall : s.isMethodCallOn "Object" (if keys then "keys" else "values") = true)
    (h : p.elementsOf? s = .ok (some elements))
    (hrun : p.runWithin true steps scope s = some (.list layers items)) :
    List.Forall₂ (fun element d => element.bound.Stands p d) elements items := by
  have hkind := isCall_of_methodCallOn hcall
  obtain ⟨fewer, hform⟩ := runWithin_call hkind hrun
  obtain ⟨argument, literal, fields, hargument, hargumentRun, htable, rfl⟩ :=
    runCall_of_entries hcall hform
  have hkeys : s.isMethodCallOn "Object" "keys" = keys := by
    cases keys with
    | true => exact hcall
    | false => rw [Site.isMethodCallOn, not_methodCall hcall (by decide), Bool.false_and]
  have hlists : (s.isMethodCallOn "Object" "keys" || s.isMethodCallOn "Object" "values") = true := by
    cases keys with
    | true => exact Bool.or_eq_true_iff.2 (.inl hcall)
    | false => exact Bool.or_eq_true_iff.2 (.inr hcall)
  rw [elementsOf?, if_neg (by rw [Site.hasKind_ne hkind (by decide)]; decide), if_pos hlists,
    hargument] at h
  obtain ⟨object?, hobject, h⟩ := bind_eq_ok.1 h
  cases object? with
  | none => cases pure_eq_ok.1 h
  | some object =>
    obtain ⟨pairs, hpairs, hlisted⟩ := bind_eq_ok.1 h
    obtain ⟨hdenoted, hisObject⟩ := of_onlyKind hobject
    obtain ⟨steps', scope', hcomes⟩ := comesTo_of_denotedWithin hdenoted ⟨_, _, hargumentRun⟩
    obtain ⟨_, _, -, -, heq⟩ := runWithin_object hisObject hcomes
    cases (ScriptValue.record.inj heq).1
    obtain ⟨fewer', hfields⟩ := fields_of_table hisObject hcomes htable hpairs
    rw [hkeys] at hlisted
    cases keys with
    | true =>
      cases pure_eq_ok.1 hlisted
      refine List.forall₂_map_left_iff.2 (List.forall₂_map_right_iff.2 (hfields.imp ?_))
      rintro pair field ⟨hkey, -⟩
      exact congrArg (fun k => ScriptValue.constant (.text k)) hkey
    | false =>
      cases pure_eq_ok.1 hlisted
      exact values_stand hfields

/-- What a callback of `.map` is given stands for the items of the receiver, one for each. -/
theorem mapElements_stand {receiver : Site} {elements : List Element}
    (h : p.mapElements (some receiver) = .ok (some elements))
    (hrun : p.runWithin true steps scope receiver = some (.list layers items)) (hlayers : layers ≤ 1) :
    List.Forall₂ (fun element d => element.bound.Stands p d) elements items := by
  rw [mapElements_eq] at h
  obtain ⟨source, hsource, h⟩ := bind_eq_ok.1 h
  cases source with
  | none => cases pure_eq_ok.1 h
  | some source =>
    have hcomes : p.ComesTo source (.list layers items) := by
      rw [← runWithin_unwrap] at hrun
      dsimp only [mapSource?, Option.map_some] at hsource
      split at hsource
      · exact comesTo_of_denotedWithin hsource ⟨_, _, hrun⟩
      · cases hsource
        exact ⟨_, _, hrun⟩
    obtain ⟨steps', scope', hcomes⟩ := hcomes
    have helements : p.elementsOf? source = .ok (some elements) := h
    unfold elementsOf? at h
    dsimp only at h
    split at h
    · next harray =>
      obtain ⟨fewer, slots, pieces, hnamed, hfills, hd⟩ := runWithin_array harray hcomes
      obtain ⟨hmost, rfl⟩ := ScriptValue.list.inj hd
      rw [← hnamed] at h
      exact hfills.elements (fun piece hpiece => Nat.le_trans (hmost ▸ le_mostLayers hpiece) hlayers) h
    · split at h
      · next hcall =>
        rcases Bool.or_eq_true_iff.1 hcall with hkeys | hvalues
        · exact entries_stand true hkeys helements hcomes
        · exact entries_stand false hvalues helements hcomes
      · cases pure_eq_ok.1 h

/-- A function comes to itself, unless it is of a kind that is not described. -/
theorem runWithin_function (hfunction : s.isFunction = true)
    (hrun : p.runWithin true steps scope s = some d) : d = .closure s scope ∨ d = .other := by
  cases hkind : s.kind? with
  | none => simp [Site.isFunction, hkind] at hfunction
  | some k =>
    have hk : k.isFunction = true := by simpa [Site.isFunction, hkind] using hfunction
    have hself : s.unwrap = s :=
      Site.unwrap_eq_self (Site.hasKind_iff.2 hkind) (Kind.isWrapper_of_isFunction hk)
    cases steps with
    | zero => cases hrun
    | succ steps =>
      rw [Project.runWithin, hself] at hrun
      have hclosure : (if isPlainFunction s then ScriptValue.closure s scope else .other) = d := by
        unfold Project.runForm at hrun
        rw [hkind] at hrun
        unfold Kind.isFunction at hk
        split at hk <;> first | exact Option.some.inj hrun | cases hk
      split at hclosure
      · exact .inl hclosure.symm
      · exact .inr hclosure.symm

/-- What a parameter of a function is in a call. -/
theorem lookup_given {parameters : List String} {arguments : List ScriptValue} {outer : Scope}
    (hnodup : parameters.Nodup) {i : Nat} {x : String} (hx : parameters[i]? = some x) :
    (given parameters arguments ++ outer).lookup x = some ((arguments[i]?).getD .other) := by
  have hkeys : keysOf (given parameters arguments) = parameters.reverse := by
    rw [keysOf, given, List.map_reverse, List.map_map]
    exact congrArg List.reverse (List.zipIdx_map_fst 0 parameters)
  have hmem : (x, (arguments[i]?).getD .other) ∈ given parameters arguments := by
    rw [given, List.mem_reverse, List.mem_map]
    exact ⟨(x, i), List.mem_zipIdx_iff_getElem?.2 hx, rfl⟩
  have honce : (keysOf (given parameters arguments)).Nodup :=
    hkeys ▸ (List.reverse_perm parameters).nodup_iff.2 hnodup
  rw [List.lookup_append, lookup_of_mem honce hmem]
  rfl

/-- The bindings of a callback for an element match the parameters of a call for the item. -/
theorem callback_matches {parameters : List String} {element : Element} {position : Nat}
    {more : List ScriptValue} {outer : Scope} (hnodup : parameters.Nodup)
    (helement : element.bound.Stands p d) :
    Matches p (callbackBindings parameters position element)
      (given parameters (d :: .constant (.integer position) :: more) ++ outer) := by
  intro name bound hlookup
  match parameters with
  | [] => cases hlookup
  | [x] =>
    rw [callbackBindings, lookup_cons_eq_ite] at hlookup
    split at hlookup
    · next hname =>
      cases hlookup
      exact ⟨d, hname ▸ lookup_given (i := 0) hnodup rfl, helement⟩
    · cases hlookup
  | x :: i :: rest =>
    rw [callbackBindings, lookup_cons_eq_ite, lookup_cons_eq_ite] at hlookup
    split at hlookup
    · next hname =>
      cases hlookup
      exact ⟨.constant (.integer position), hname ▸ lookup_given (i := 1) hnodup rfl, rfl⟩
    · split at hlookup
      · next hname =>
        cases hlookup
        exact ⟨d, hname ▸ lookup_given (i := 0) hnodup rfl, helement⟩
      · cases hlookup

/-- A run of `list.map(function)`, with the items that go in and the answers that come out. -/
structure MapRun (p : Project) (steps : Nat) (scope : Scope) (call function : Site) (outer : Scope)
    (layers : Nat) (inputs answers : List ScriptValue) : Prop where
  receiver : ∃ receiver, call.receiver? = some receiver ∧
    p.runWithin true steps scope receiver = some (.list layers inputs)
  callback : ∃ callback, call.firstArgument? = some callback ∧
    p.runWithin true steps scope callback = some (.closure function outer)
  layers_le : layers ≤ 1
  nodup : ∀ parameters, function.parameterNames? = some parameters → parameters.Nodup
  answers : List.Forall₂ (fun input answer => invoke (p.runWithin true steps) function outer
    [input.1, .constant (.integer input.2), .list layers inputs] = some answer) inputs.zipIdx answers

/-- A call of `.map` that comes to a list calls a function for the items of another one. -/
theorem exists_mapRun (hmap : s.isMethodCall "map" = true)
    (hrun : p.runWithin true steps scope s = some (.list layers items)) :
    ∃ fewer function outer layers inputs, MapRun p fewer scope s function outer layers inputs items := by
  obtain ⟨fewer, hform⟩ := runWithin_call (isCall_of_methodCall hmap) hrun
  rw [Project.runCall, if_pos hmap] at hform
  unfold Project.runMap at hform
  split at hform
  · next receiver callback hreceiver hcallback =>
    obtain ⟨list, hlist, hform⟩ := bind_eq_some.1 hform
    obtain ⟨closure, hclosure, hform⟩ := bind_eq_some.1 hform
    split at hform
    · next inLayers inputs function outer _ =>
      obtain ⟨hcareful, hform⟩ := heed_bind_eq_some.1 hform
      obtain ⟨hlayers, hnodup⟩ := Bool.and_eq_true_iff.1 hcareful
      obtain ⟨answers, hanswers, hform⟩ := bind_eq_some.1 hform
      cases hform
      refine ⟨fewer, function, outer, inLayers, inputs, ⟨receiver, hreceiver, hlist⟩,
        ⟨callback, hcallback, hclosure⟩, of_decide_eq_true hlayers, fun parameters hparameters => ?_,
        forall₂_of_mapM hanswers⟩
      rw [hparameters] at hnodup
      exact of_decide_eq_true hnodup
    · cases hform
  · cases hform

/-- The function that `.map` calls is the one that its callback denotes. -/
theorem MapRun.function_eq {call function callback : Site} {outer : Scope}
    {inputs answers : List ScriptValue}
    (h : MapRun p steps scope call function outer layers inputs answers)
    (hcallback : p.mapCallback? call = .ok (some callback)) : function = callback := by
  obtain ⟨argument, hargument, hrun⟩ := h.callback
  have hargumentComes : p.ComesTo argument.unwrap (.closure function outer) :=
    comesTo_unwrap.2 ⟨_, _, hrun⟩
  unfold mapCallback? at hcallback
  rw [hargument] at hcallback
  dsimp only at hcallback
  have hself : p.ComesTo callback (.closure function outer) ∧ callback.isFunction = true := by
    split at hcallback
    · obtain ⟨heq, hfunction⟩ := Option.filter_eq_some_iff.1 (pure_eq_ok.1 hcallback)
      exact ⟨Option.some.inj heq ▸ hargumentComes, hfunction⟩
    · obtain ⟨found, hfound, hfiltered⟩ := bind_eq_ok.1 hcallback
      obtain ⟨rfl, hfunction⟩ := Option.filter_eq_some_iff.1 (pure_eq_ok.1 hfiltered)
      exact ⟨comesTo_of_denotedWithin hfound hargumentComes, hfunction⟩
  obtain ⟨⟨steps', scope', hcomes⟩, hfunction⟩ := hself
  rcases runWithin_function hfunction hcomes with hclosure | hother
  · exact (ScriptValue.closure.inj hclosure).1
  · cases hother

/-- The values that `.map` reads from what a callback answers are offered. -/
theorem mappedList_offered (hrun : p.runWithin true steps scope s = some (.list layers items))
    (hall : AllOffered items data) (h : mappedList p s = .ok (some (.ok c))) (hv : v ∈ c.values) :
    .constant v ∈ data := by
  obtain ⟨hmap, h⟩ := of_applied h
  obtain ⟨elements?, helements, h⟩ := bind_eq_ok.1 h
  obtain ⟨callback?, hcallback, h⟩ := bind_eq_ok.1 h
  split at h
  · next elements callback =>
    split at h
    · cases applies_eq h
    · cases applies_eq h
    · next parameters body hparameters hbody =>
      obtain ⟨options, hoptions, h⟩ := bind_eq_ok.1 h
      obtain ⟨choices, hchoices, h⟩ := bind_eq_ok.1 h
      split at h
      · cases applies_eq h
      · cases applies_eq h
        obtain ⟨fewer, function, outer, inLayers, inputs, hmapRun⟩ := exists_mapRun hmap hrun
        obtain rfl := hmapRun.function_eq hcallback
        obtain ⟨receiver, hreceiver, hreceiverRun⟩ := hmapRun.receiver
        rw [hreceiver] at helements
        have hstand := mapElements_stand helements hreceiverRun hmapRun.layers_le
        obtain ⟨label, hoption⟩ := (Choices.mem_collect hchoices).1 hv
        obtain ⟨b, hb, hread⟩ := (mem_mapM_iff hoptions).1 hoption
        obtain ⟨⟨element, position⟩, helement, rfl⟩ := List.mem_map.1 hb
        obtain ⟨⟨d, position'⟩, hd, hstands, heq⟩ :=
          exists_of_mem_forall₂ (forall₂_zipIdx hstand 0) helement
        cases heq
        obtain ⟨answer, hanswer, hinvoke⟩ := exists_of_mem_forall₂ hmapRun.answers hd
        obtain ⟨offered, hoffered, hoffer⟩ := hall answer hanswer
        obtain ⟨hunwrapped, hobject⟩ := Option.filter_eq_some_iff.1 hbody
        obtain ⟨bodySite, hbodySite, rfl⟩ := Option.map_eq_some_iff.1 hunwrapped
        rw [invoke, hparameters, hbodySite] at hinvoke
        dsimp only at hinvoke
        rw [← runWithin_unwrap] at hinvoke
        have hmatches : Matches p (callbackBindings parameters position element)
            (given parameters [d, .constant (.integer position), .list inLayers inputs] ++ outer) :=
          callback_matches (hmapRun.nodup parameters hparameters) hstands
        exact offer_of_optionOf hobject hmatches hinvoke hoffer hread ▸ hoffered
  · exact absurd h applies_ne_doesNotApply

/-! ### Copies -/

/-- A copy that careful runs make has the items of what is copied. -/
theorem runCopy_eq_list {source : Site} {recur : Runner} (hsource : s.firstArgument? = some source)
    (h : runCopy true recur scope s = some (.list layers items)) :
    ∃ sourceLayers, recur scope source = some (.list sourceLayers items) := by
  unfold Site.firstArgument? at hsource
  unfold Project.runCopy at h
  split at h
  · next hnone =>
    rw [hnone] at hsource
    cases hsource
  · next first more harguments =>
    rw [harguments] at hsource
    cases Option.some.inj hsource
    obtain ⟨list, hlist, h⟩ := bind_eq_some.1 h
    split at h
    · obtain ⟨hplain, h⟩ := heed_bind_eq_some.1 h
      rw [List.isEmpty_iff.1 hplain] at h
      cases h
      exact ⟨_, hlist⟩
    · cases h

/-- The constants of a list that is copied are among the items of the copy. -/
theorem copiedList_items (hrun : p.runWithin true steps scope s = some (.list layers items))
    (h : copiedList p s = .ok (some (.ok c))) (hv : v ∈ c.values) : .constant v ∈ items := by
  obtain ⟨hcall, h⟩ := of_applied h
  split at h
  · cases applies_eq h
  · next source hsource =>
    obtain ⟨found, hfound, h⟩ := bind_eq_ok.1 h
    cases found with
    | none => cases applies_eq h
    | some list =>
      obtain ⟨outcome, houtcome, h⟩ := bind_eq_ok.1 h
      cases outcome with
      | none => cases applies_eq h
      | some o =>
        cases applies_eq h
        obtain ⟨fewer, hform⟩ := runWithin_call (isCall_of_methodCallOn hcall) hrun
        rw [Project.runCall, not_methodCall hcall (by decide), not_callsGlobal hcall (by decide),
          not_callsGlobal hcall (by decide)] at hform
        simp only [Bool.false_eq_true, if_false] at hform
        split at hform
        · obtain ⟨sourceLayers, hsourceRun⟩ := runCopy_eq_list hsource hform
          obtain ⟨hdenoted, -⟩ := of_onlyKind hfound
          obtain ⟨_, _, hlist⟩ := comesTo_of_denotedWithin hdenoted ⟨_, _, hsourceRun⟩
          exact literalList_items hlist houtcome hv
        · cases hform

/-! ### All idioms -/

/-- A call comes to a list, if to anything that is described. -/
theorem runCall_cases {recur : Runner} (h : p.runCall true recur scope s = some d) :
    d = .other ∨ ∃ layers items, d = .list layers items := by
  have hother (h : some ScriptValue.other = some d) : d = .other ∨ ∃ layers items, d = .list layers items :=
    .inl (Option.some.inj h).symm
  have heach {function : Site} {outer : Scope} {inputs more : List ScriptValue}
      (h : invokeEach recur function outer inputs more = some d) :
      d = .other ∨ ∃ layers items, d = .list layers items := by
    obtain ⟨answers, -, h⟩ := bind_eq_some.1 h
    exact .inr ⟨0, answers, (Option.some.inj h).symm⟩
  have hentries {keys : Bool} (h : runEntries keys recur scope s = some d) :
      d = .other ∨ ∃ layers items, d = .list layers items := by
    unfold Project.runEntries at h
    split at h
    · obtain ⟨object, -, h⟩ := bind_eq_some.1 h
      split at h
      · split at h
        · exact .inr ⟨_, _, (Option.some.inj h).symm⟩
        · exact hother h
      · exact hother h
    · exact hother h
  unfold Project.runCall at h
  split at h
  · unfold Project.runMap at h
    split at h
    · obtain ⟨receiver, -, h⟩ := bind_eq_some.1 h
      obtain ⟨callback, -, h⟩ := bind_eq_some.1 h
      split at h
      · exact heach (heed_bind_eq_some.1 h).2
      · exact hother h
    · exact hother h
  · split at h
    · exact hentries h
    · split at h
      · exact hentries h
      · split at h
        · unfold Project.runCopy at h
          split at h
          · exact hother h
          · obtain ⟨source, -, h⟩ := bind_eq_some.1 h
            split at h
            · obtain ⟨hplain, h⟩ := heed_bind_eq_some.1 h
              rw [List.isEmpty_iff.1 hplain] at h
              exact .inr ⟨_, _, (Option.some.inj h).symm⟩
            · exact hother h
        · exact hother h

/-- What an expression for options is reduced to comes to the list that is offered, or to a function that
answers it. -/
theorem exists_list_of_offered (he : p.optionsExpression s = .ok e)
    (hdata : p.offeredWithin true steps s = some data) :
    ∃ d list, p.ComesTo e d ∧ answerOf (p.runWithin true steps) d = some list ∧
      offers true list = some data := by
  obtain ⟨d, hd, hdata⟩ := bind_eq_some.1 hdata
  obtain ⟨list, hlist, hdata⟩ := bind_eq_some.1 hdata
  rw [← runWithin_unwrap] at hd
  have hstart : ∃ d list, p.ComesTo (if s.unwrap.isFunction
        then (s.unwrap.bodyExpression?.map Site.unwrap).getD s.unwrap else s.unwrap) d ∧
      answerOf (p.runWithin true steps) d = some list ∧ offers true list = some data := by
    split
    · next hfunction =>
      rcases runWithin_function hfunction hd with rfl | rfl
      · rw [answerOf, invoke] at hlist
        split at hlist
        · next parameters body _ hbody =>
          rw [hbody]
          cases list with
          | list layers items => exact ⟨_, _, comesTo_unwrap.2 ⟨_, _, hlist⟩, rfl, hdata⟩
          | constant | record | closure | other => cases hdata
        · cases hlist
          cases hdata
      · cases hlist
        cases hdata
    · exact ⟨d, list, ⟨steps, [], hd⟩, hlist, hdata⟩
  obtain ⟨d, list, hcomes, hanswer, hdata⟩ := hstart
  unfold optionsExpression at he
  dsimp only at he
  generalize (if s.unwrap.isFunction = true then _ else s.unwrap) = start at hcomes he
  split at he
  · obtain ⟨found, hfound, he⟩ := bind_eq_ok.1 he
    cases found with
    | none =>
      cases pure_eq_ok.1 he
      exact ⟨d, list, hcomes, hanswer, hdata⟩
    | some found =>
      dsimp only at he
      split at he
      · cases pure_eq_ok.1 he
        exact ⟨d, list, comesTo_of_denotedWithin hfound hcomes, hanswer, hdata⟩
      · cases pure_eq_ok.1 he
        exact ⟨d, list, hcomes, hanswer, hdata⟩
  · cases pure_eq_ok.1 he
    exact ⟨d, list, hcomes, hanswer, hdata⟩

/-- The idioms that read a list. -/
def listIdioms : List Idiom := [literalList, objectList, mappedList, copiedList]

/-- An expression for options has its choices from one of some idioms. -/
structure AnsweredBy (p : Project) (idioms : List Idiom) (s : Site) (c : Choices) : Prop where
  matched : p.matchOptions s = .ok (.ok c)
  answered : ∃ e, p.optionsExpression s = .ok e ∧ ∃ idiom ∈ idioms, idiom p e = .ok (some (.ok c))

/-- **Choices are offered.** -/
theorem choices_offered (h : AnsweredBy p listIdioms s c)
    (hdata : p.offeredWithin true steps s = some data) :
    p.offeredWithin false steps s = some data ∧ ∀ v ∈ c.values, .constant v ∈ data := by
  refine ⟨offeredWithin_of_careful steps s data hdata, fun v hv => ?_⟩
  obtain ⟨e, he, idiom, hidiom, hread⟩ := h.answered
  obtain ⟨d, list, ⟨steps', scope', hrun⟩, hanswer, hoffers⟩ := exists_list_of_offered he hdata
  -- what an idiom reads is a literal or a call, so no function is left to be called
  have hlist (h : d = .other ∨ ∃ layers items, d = .list layers items) :
      ∃ layers items, d = .list layers items ∧ AllOffered items data := by
    rcases h with rfl | ⟨layers, items, rfl⟩
    · cases hanswer
      cases hoffers
    · cases hanswer
      exact ⟨layers, items, rfl, allOffered hoffers⟩
  have harray (h : e.hasKind .array = true) :
      ∃ layers items, d = .list layers items ∧ AllOffered items data := by
    obtain ⟨_, _, _, -, -, hd⟩ := runWithin_array h hrun
    exact hlist (.inr ⟨_, _, hd⟩)
  have hcall (h : e.hasKind .callExpression = true) :
      ∃ layers items, d = .list layers items ∧ AllOffered items data := by
    obtain ⟨fewer, hform⟩ := runWithin_call h hrun
    exact hlist (runCall_cases hform)
  have hconstant {items : List ScriptValue} (hall : AllOffered items data) (h : .constant v ∈ items) :
      .constant v ∈ data := by
    obtain ⟨offered, hoffered, hoffer⟩ := hall _ h
    cases hoffer
    exact hoffered
  simp only [listIdioms, List.mem_cons, List.not_mem_nil, or_false] at hidiom
  rcases hidiom with rfl | rfl | rfl | rfl
  · obtain ⟨layers, items, rfl, hall⟩ := harray (of_applied hread).1
    exact hconstant hall (literalList_items hrun hread hv)
  · obtain ⟨layers, items, rfl, hall⟩ := harray (of_applied hread).1
    exact objectList_offered hrun hall hread hv
  · obtain ⟨layers, items, rfl, hall⟩ := hcall (isCall_of_methodCall (of_applied hread).1)
    exact mappedList_offered hrun hall hread hv
  · obtain ⟨layers, items, rfl, hall⟩ := hcall (isCall_of_methodCallOn (of_applied hread).1)
    exact hconstant hall (copiedList_items hrun hread hv)

end Options

/-! ### Programs by hand -/

/-- The function `()=>…`. -/
def thunkNode (body : Node) : Node :=
  .tree .arrowFunction none
    [.tree .formalParameters (some .parameters) [.token none "" "(", .token none "" ")"],
     .token none "" "=>", body.withRole .body]

/-- The call `[...B,"z"].map(x=>({value:x,label:"l"}))`. -/
def spreadCall : Node :=
  mapCall [.tree .spreadElement none [.token none "" "...", nameNode "B"], commaNode, textLiteral "z"]
    [pairLiteral "value" (nameNode "x"), commaNode, pairLiteral "label" (textLiteral "l")]

def spreadProgram : Node :=
  .tree .program none
    [constantNode "" "B" ((arrayLiteral [textLiteral "x", commaNode, textLiteral "y"])),
     probeNode (thunkNode spreadCall)]

def spreadThunk : Site := probedSite spreadProgram (thunkNode spreadCall)

set_option maxRecDepth 4000 in
theorem spread_items_offered :
    parse .plain
        "const B =[\"x\",\"y\"];\nprobe(()=>[...B,\"z\"].map(x=>(\x7bvalue:x,label:\"l\"\x7d)));" =
      spreadProgram ∧
    AnsweredBy bareProject listIdioms spreadThunk
      ⟨[.text "x", .text "y", .text "z"], [("x", "l"), ("y", "l"), ("z", "l")]⟩ ∧
    bareProject.offeredWithin true 7 spreadThunk =
      some [.constant (.text "x"), .constant (.text "y"), .constant (.text "z")] ∧
    bareProject.offeredWithin false 7 spreadThunk =
      some [.constant (.text "x"), .constant (.text "y"), .constant (.text "z")] ∧
    ∀ v ∈ [Value.text "x", .text "y", .text "z"], ScriptValue.constant v ∈
      [.constant (.text "x"), .constant (.text "y"), .constant (.text "z")] := by
  have hanswered : AnsweredBy bareProject listIdioms spreadThunk
      ⟨[.text "x", .text "y", .text "z"], [("x", "l"), ("y", "l"), ("z", "l")]⟩ :=
    ⟨rfl, _, rfl, mappedList, by simp [listIdioms], rfl⟩
  have hoffered : bareProject.offeredWithin true 7 spreadThunk =
      some [.constant (.text "x"), .constant (.text "y"), .constant (.text "z")] := rfl
  exact ⟨by decide +kernel, hanswered, hoffered, choices_offered hanswered hoffered⟩

/-- The call `Array.from(["a"],x=>"b")`. -/
def copyCall : Node :=
  .tree .callExpression none
    [(methodNode (nameNode "Array") "from").withRole .function,
     .tree .arguments (some .arguments)
      [.token none "" "(", arrayLiteral [textLiteral "a"], commaNode,
       .tree .arrowFunction none
        [.leaf .identifier (some .parameter) "" "x", .token none "" "=>", (textLiteral "b").withRole .body],
       .token none "" ")"]]

def copyProgram : Node := .tree .program none [probeNode copyCall]

def copySite : Site := probedSite copyProgram copyCall

set_option maxRecDepth 4000 in
theorem copied_items_not_offered :
    parse .plain "\nprobe(Array.from([\"a\"],x=>\"b\"));" = copyProgram ∧
    AnsweredBy bareProject listIdioms copySite ⟨[.text "a"], []⟩ ∧
    bareProject.offeredWithin false 3 copySite = some [.constant (.text "b")] ∧
    ScriptValue.constant (.text "a") ∉ [ScriptValue.constant (.text "b")] :=
  ⟨by decide +kernel, ⟨rfl, _, rfl, copiedList, by simp [listIdioms], rfl⟩, rfl, by simp⟩

end SettingsHarvest
