import SettingsHarvest.Proofs.ChoiceCorrespondence
import SettingsHarvest.Proofs.InPlace
import SettingsHarvest.Proofs.Wrappers

/-! Lists of options that a callback makes.

A callback of `.map` with one parameter and an object literal for an answer is read once for each element,
with the parameter bound to it. That is reading the object with the element in place of the parameter
(`optionOf_substitute`, `mapping_substitutes`), for parameters that are used directly: what the chain
`x.a.b` reads from is found without bindings, so a callback that uses one leaves out what it would read
from the literal itself (`chained_member_lost`). -/
namespace SettingsHarvest
open Syntax Project

/-! ### Option objects -/

namespace Syntax.Site

/-- A site with the expression of an element in place of a name. -/
def substitute (s : Site) (x : String) (e : Site) : Site :=
  ⟨s.file, s.above, (e.insteadOf x).apply s.node⟩

theorem mem_walk_memberValue {s v t : Site} {key : String} (h : s.memberValue? key = .ok (some v))
    (ht : t ∈ v.walk) : t ∈ s.walk := by
  have hmember {member : Site} (hm : member ∈ s.named) (ht : t ∈ member.walk) : t ∈ s.walk := by
    obtain ⟨n, hn, rfl⟩ := List.mem_map.1 hm
    exact mem_walk_inside (List.mem_filter.1 hn).1 ht
  obtain ⟨found, hfound, h⟩ := bind_eq_ok.1 h
  cases found with
  | some value =>
    cases pure_eq_ok.1 h
    unfold propertyValue? at hfound
    split at hfound
    · obtain ⟨pair, hpair, hvalue⟩ := exists_of_firstSome hfound
      obtain ⟨key', -, hvalue⟩ := bind_eq_ok.1 hvalue
      split at hvalue
      · exact hmember (List.mem_filter.1 hpair).1 (mem_walk_part? (pure_eq_ok.1 hvalue) ht)
      · cases pure_eq_ok.1 hvalue
    · cases hfound
  | none =>
    dsimp only at h
    split at h
    · exact hmember (List.mem_of_find?_eq_some (pure_eq_ok.1 h)) ht
    · cases pure_eq_ok.1 h

/-- In the place of a node that is inside others, another one is beside it. -/
theorem beside_of_above {s : Site} (h : s.above ≠ []) (n : Node) : s.Beside ⟨s.file, s.above, n⟩ := by
  have hgo (above : List Node) :
      enclosing.go s above = enclosing.go (⟨s.file, s.above, n⟩ : Site) above := by
    induction above with
    | nil => rfl
    | cons m rest ih => rw [enclosing.go, enclosing.go, ih]
  have henclosing : s.enclosing = (⟨s.file, s.above, n⟩ : Site).enclosing := hgo s.above
  refine ⟨rfl, ?_, fun name => by rw [scopedDeclaration?, scopedDeclaration?, henclosing]⟩
  obtain ⟨m, rest, hrest⟩ := List.exists_cons_of_ne_nil h
  have hsome : ∃ last, s.enclosing.getLast? = some last := by
    unfold enclosing
    rw [hrest, enclosing.go]
    exact ⟨_, List.getLast?_cons⟩
  obtain ⟨last, hlast⟩ := hsome
  rw [program, program, ← henclosing, hlast]
  rfl

end Syntax.Site

namespace Project

/-- A parameter that is used such that binding it comes to putting elements in its place: members are
read from the parameter itself, no pair of the object has its name as key if it stands alone there, and no
enumeration outside the files is named like it, or spelled like another expression that members are read
from. -/
structure UsesDirectly (p : Project) (body : Site) (x : String) : Prop where
  reads : body.ReadsDirectly x
  alone : (∃ m ∈ body.node.named, m.isAlone x = true) → body.propertyValue? x = .ok none
  unlisted : p.enums.lookup x = none
  outside : p.Unlisted body

/-- The value and the label of an option object are evaluated above the depth bound. -/
def OptionStaysAbove (p : Project) (b : Bindings) (object : Site) : Prop :=
  ∀ key ∈ ["value", "label"], ∀ v, object.memberValue? key = .ok (some v) → p.StaysAbove v b

/-- With a fault at the depth bound, the value and the label of an option object still have answers. -/
def OptionMeetsNoBound (p : Project) (b : Bindings) (object : Site) : Prop :=
  ∀ key ∈ ["value", "label"], ∀ v ∈ (object.memberValue? key).toOption.join,
    (p.evaluateOver (stopping .endlessReference) evaluationDepth v b).isOk = true

instance (p : Project) (b : Bindings) (object : Site) : Decidable (p.OptionMeetsNoBound b object) := by
  unfold OptionMeetsNoBound
  infer_instance

theorem OptionMeetsNoBound.above {p : Project} {b : Bindings} {object : Site}
    (h : p.OptionMeetsNoBound b object) : p.OptionStaysAbove b object := by
  intro key hkey v hv
  have hok := h key hkey v (by rw [hv]; rfl)
  generalize hx : p.evaluateOver _ _ v b = x at hok
  cases x with
  | ok o => exact .of_answer hx
  | error f => cases hok

end Project

section Options

variable {p : Project} {body e : Site} {x : String}

/-- What stands under a key of an option object, with an element in place of the parameter. -/
theorem memberValue_inPlace_of (he : e.IsClosedLiteral) (hbody : body.hasKind .object = true)
    (habove : body.above ≠ []) (hdirect : p.UsesDirectly body x) (hout : p.Unlisted (body.substitute x e))
    {key : String} (hkey : key ∈ ["value", "label"])
    (hstays : p.OptionStaysAbove [(x, .expression e)] body)
    (hstays' : p.OptionStaysAbove [] (body.substitute x e)) :
    Parallel (Option.Rel fun v v' => Parallel (Outcome.Alike Eq) (p.evaluate v [(x, .expression e)])
      (p.evaluate v' [])) (body.memberValue? key) ((body.substitute x e).memberValue? key) := by
  have hsub : body.Substituted (e.insteadOf x) (body.substitute x e) :=
    ⟨rfl, Site.beside_of_above habove _⟩
  have hvalues := hsub.memberValue he.isNamedPart hbody hdirect.alone key
  generalize hx : body.memberValue? key = found at hvalues
  generalize hx' : (body.substitute x e).memberValue? key = found' at hvalues
  cases hvalues with
  | fault => exact .fault
  | ok hv =>
    cases hv with
    | none => exact .ok .none
    | some hv =>
      refine .ok (.some (evaluate_inPlace he hdirect.unlisted ⟨hv, ?_, ?_, ?_⟩
        (hstays key hkey _ hx) (hstays' key hkey _ hx')))
      · exact fun t ht => hdirect.reads t (Site.mem_walk_memberValue hx (Site.mem_walk_unwrap ht))
      · exact fun t ht => hdirect.outside t (Site.mem_walk_memberValue hx (Site.mem_walk_unwrap ht))
      · exact fun t ht => hout t (Site.mem_walk_memberValue hx' (Site.mem_walk_unwrap ht))

/-- An option is read as if the element stood in place of the parameter. -/
theorem optionOf_substitute (he : e.IsClosedLiteral) (hbody : body.hasKind .object = true)
    (habove : body.above ≠ []) (hdirect : p.UsesDirectly body x) (hout : p.Unlisted (body.substitute x e))
    (hstays : p.OptionStaysAbove [(x, .expression e)] body)
    (hstays' : p.OptionStaysAbove [] (body.substitute x e)) :
    Parallel (Outcome.Alike Eq) (p.optionOf [(x, .expression e)] body)
      (p.optionOf [] (body.substitute x e)) := by
  have hmember {key : String} (hkey : key ∈ ["value", "label"]) :=
    memberValue_inPlace_of he hbody habove hdirect hout hkey hstays hstays'
  unfold optionOf
  refine (hmember (by decide)).bind fun v v' hv => ?_
  cases hv with
  | none => exact .ok (.failure rfl)
  | some hv =>
    refine hv.bind fun o o' ho => ?_
    cases ho with
    | failure hkind => exact .ok (.failure hkind)
    | value hw =>
      rename_i w w'
      obtain rfl : w = w' := hw
      refine (hmember (by decide)).bind fun l l' hl => ?_
      cases hl with
      | none => exact .ok (.value rfl)
      | some hl =>
        refine hl.bind fun o o' ho => ?_
        cases ho with
        | failure => exact .ok (.value rfl)
        | value ht =>
          rename_i t t'
          obtain rfl : t = t' := ht
          exact alike_refl _

end Options

/-! ### Callbacks -/

namespace Syntax.Site

mutual

theorem above_of_mem_walkFrom {file : String} {above : List Node} {t : Site} : ∀ {n : Node},
    t ∈ walkFrom file above n → above <:+ t.above
  | .token .., h => by
    cases List.mem_singleton.1 h
    exact List.suffix_rfl
  | .leaf .., h => by
    cases List.mem_singleton.1 h
    exact List.suffix_rfl
  | .tree k r parts, h => by
    rcases List.mem_cons.1 h with rfl | h
    · exact List.suffix_rfl
    · exact (List.suffix_cons _ _).trans (above_of_mem_walkAllFrom h)

theorem above_of_mem_walkAllFrom {file : String} {above : List Node} {t : Site} :
    ∀ {parts : List Node}, t ∈ walkAllFrom file above parts → above <:+ t.above
  | [], h => nomatch h
  | n :: rest, h => by
    rcases List.mem_append.1 h with h | h
    · exact above_of_mem_walkFrom h
    · exact above_of_mem_walkAllFrom h

end

/-- The expression that a function answers is inside the function. -/
theorem above_of_bodyExpression {function body : Site} (h : function.bodyExpression? = some body) :
    function.node :: function.above <:+ body.above := by
  have hnamed {s t : Site} (ht : s.named.head? = some t) : t.above = s.node :: s.above := by
    obtain ⟨n, -, rfl⟩ := List.mem_map.1 (List.mem_of_head? ht)
    rfl
  unfold bodyExpression? at h
  split at h
  · cases h
  · next block hblock =>
    obtain ⟨n, -, rfl⟩ := Option.map_eq_some_iff.1 hblock
    split at h
    · split at h
      · next first hfirst =>
        split at h
        · rw [hnamed h, hnamed hfirst]
          exact (List.suffix_cons _ _).trans (List.suffix_cons _ _)
        · cases h
      · cases h
    · cases h
      exact List.suffix_rfl

end Syntax.Site

namespace Project

/-- A `.map` call over a list of closed literals, with a callback of one parameter that answers an object
literal. -/
structure MapsList (p : Project) (call list callback body : Site) (x : String) : Prop where
  isMap : call.isMethodCall "map" = true
  source : p.mapSource? call.receiver? = .ok (some list)
  isList : list.hasKind .array = true
  literals : ∀ e ∈ list.named, e.IsClosedLiteral
  calls : p.mapCallback? call = .ok (some callback)
  parameter : callback.parameterNames? = some [x]
  answers : callbackObject? callback = some body

/-- The choices of the objects that a callback answers, each with an element written in place of the
parameter. -/
def substitutedChoices (p : Project) (body : Site) (x : String) (elements : List Site) :
    Attempt Choices := do
  Choices.collect (← (elements.map (body.substitute x)).mapM (p.optionOf []))

namespace MapsList

variable {p : Project} {call list callback body : Site} {x : String}

theorem isCall (h : p.MapsList call list callback body x) : call.hasKind .callExpression = true :=
  (Bool.and_eq_true_iff.1 h.isMap).1

theorem isObject (h : p.MapsList call list callback body x) : body.hasKind .object = true :=
  (Option.filter_eq_some_iff.1 h.answers).2

theorem above_ne_nil (h : p.MapsList call list callback body x) : body.above ≠ [] := by
  obtain ⟨answer, hanswer, rfl⟩ := Option.map_eq_some_iff.1 (Option.filter_eq_some_iff.1 h.answers).1
  have hinside : callback.node :: callback.above <:+ answer.unwrap.above :=
    (Site.above_of_bodyExpression hanswer).trans
      (Site.above_of_mem_walkFrom (Site.mem_walk_unwrap (Site.mem_walk_self _)))
  intro hnil
  rw [hnil] at hinside
  cases List.suffix_nil.1 hinside

/-- A list without spreads is gone through element by element. -/
theorem spreadElements_eq {elements : List Site} (h : ∀ e ∈ elements, e.hasKind .spreadElement = false) :
    p.spreadElements elements = .ok (some (elements.map .site)) := by
  induction elements with
  | nil => rfl
  | cons e rest ih =>
    obtain ⟨he, hrest⟩ := List.forall_mem_cons.1 h
    rw [spreadElements, he, ih hrest]
    rfl

theorem sees (h : p.MapsList call list callback body x) :
    p.mapElements call.receiver? = .ok (some (list.named.map .site)) := by
  have hnoSpread (e : Site) (he : e ∈ list.named) : e.hasKind .spreadElement = false :=
    (h.literals e he).hasKind_eq_false rfl rfl (by decide)
  rw [mapElements_eq, h.source]
  show p.elementsOf? list = _
  rw [elementsOf?, if_pos h.isList, spreadElements_eq hnoSpread]

theorem options_alike (h : p.MapsList call list callback body x) (hdirect : p.UsesDirectly body x)
    (hout : ∀ e ∈ list.named, p.Unlisted (body.substitute x e))
    (hstays : ∀ e ∈ list.named, p.OptionStaysAbove [(x, .expression e)] body)
    (hstays' : ∀ e ∈ list.named, p.OptionStaysAbove [] (body.substitute x e)) :
    Parallel (List.Forall₂ (Outcome.Alike Eq))
      ((elementBindings [x] (list.named.map .site)).mapM fun b => p.optionOf b body)
      ((list.named.map (body.substitute x)).mapM (p.optionOf [])) := by
  rw [elementBindings_single, List.map_map, List.mapM_map, List.mapM_map]
  refine Parallel.mapM (P := fun e e' => e = e' ∧ e ∈ list.named)
    (List.forall₂_same.2 fun e he => ⟨rfl, he⟩) fun e e' he => ?_
  obtain ⟨rfl, he⟩ := he
  exact optionOf_substitute (h.literals e he) h.isObject h.above_ne_nil hdirect (hout e he)
    (hstays e he) (hstays' e he)

theorem mappedList_eq (h : p.MapsList call list callback body x) (hdirect : p.UsesDirectly body x)
    (hout : ∀ e ∈ list.named, p.Unlisted (body.substitute x e))
    (hstays : ∀ e ∈ list.named, p.OptionStaysAbove [(x, .expression e)] body)
    (hstays' : ∀ e ∈ list.named, p.OptionStaysAbove [] (body.substitute x e)) :
    mappedList p call = (do
      let choices ← p.substitutedChoices body x list.named
      if !list.named.isEmpty && choices.isEmpty then applies (.error .noCallbackValues)
      else applies (.ok choices)) := by
  have hobjects := h.options_alike hdirect hout hstays hstays'
  unfold mappedList substitutedChoices
  rw [h.isMap, h.sees, h.calls]
  simp only [Bool.not_true, Bool.false_eq_true, if_false, bind_assoc]
  have hread {α β : Type} (a : α) (f : α → Attempt β) : (Except.ok a >>= f) = f a := rfl
  rw [hread, hread]
  dsimp only
  rw [h.parameter, h.answers]
  refine hobjects.bind_eq fun options options' hoptions => ?_
  rw [collect_alike hoptions, List.isEmpty_map]

end MapsList

/-- **Mapping is substitution.** The choices of a `.map` call over closed literals are those that the
callback's object offers with each element written in place of the parameter. They are what `options` with
such a call offer, unless the list has elements and none of them gives a value. -/
theorem mapping_substitutes {p : Project} {call list callback body : Site} {x : String}
    (h : p.MapsList call list callback body x) (hdirect : p.UsesDirectly body x)
    (hout : ∀ e ∈ list.named, p.Unlisted (body.substitute x e))
    (hstays : ∀ e ∈ list.named, p.OptionStaysAbove [(x, .expression e)] body)
    (hstays' : ∀ e ∈ list.named, p.OptionStaysAbove [] (body.substitute x e)) :
    mappedList p call = (do
      let choices ← p.substitutedChoices body x list.named
      if !list.named.isEmpty && choices.isEmpty then applies (.error .noCallbackValues)
      else applies (.ok choices)) ∧
    ∀ options, p.optionsExpression options = .ok call → p.matchOptions options = (do
      let choices ← p.substitutedChoices body x list.named
      if !list.named.isEmpty && choices.isEmpty then
        p.firstChoices call .noCallbackValues [tableList]
      else return .ok choices) := by
  have hmapped := h.mappedList_eq hdirect hout hstays hstays'
  refine ⟨hmapped, fun options hoptions => ?_⟩
  obtain ⟨hliteral, hobjects⟩ := lists_skip h.isCall (p := p)
  unfold matchOptions
  rw [hoptions]
  show p.firstChoices call _ idioms = _
  rw [idioms, firstChoices_skip hliteral, firstChoices_skip hobjects, firstChoices, hmapped]
  cases p.substitutedChoices body x list.named with
  | error f => rfl
  | ok choices =>
    dsimp only [bind, Except.bind]
    by_cases hnone : (!list.named.isEmpty && choices.isEmpty) = true
    · rw [if_pos hnone, if_pos hnone]
      exact firstChoices_skip (copiedList_skips h.isMap)
    · rw [if_neg hnone, if_neg hnone]
      rfl

end Project

/-! ### Programs by hand -/

section Runs

variable (elements members : List Node)

/-- The call `[…].map(x=>({…}))`. -/
def mapCall : Node :=
  callNode (methodNode (arrayLiteral elements) "map") (functionNode "x" (objectLiteral members))

def mapProgram : Node := .tree .program none [probeNode (mapCall elements members)]

def mapSite : Site := probedSite (mapProgram elements members) (mapCall elements members)

/-- The list in such a call. -/
def mapList : Site :=
  ((mapSite elements members).inside
    ((methodNode (arrayLiteral elements) "map").withRole .function)).inside
      ((arrayLiteral elements).withRole .object)

def mapCallback : Site :=
  argumentIn (mapSite elements members) (functionNode "x" (objectLiteral members))

/-- The object that the callback answers. -/
def mapBody : Site :=
  ((mapCallback elements members).inside ((parenthesesNode "" (objectLiteral members)).withRole .body)).inside
    (objectLiteral members)

variable {elements members : List Node}

/-- Such a call maps its list, if that holds closed literals. -/
theorem mapsList_by_hand
    (hliterals : ∀ e ∈ (mapList elements members).named,
      e.unwrap.kind?.any Kind.isLiteral = true ∧ ∀ t ∈ e.walk, t.isNameUse = false) :
    bareProject.MapsList (mapSite elements members) (mapList elements members)
      (mapCallback elements members) (mapBody elements members) "x" where
  isMap := rfl
  source := rfl
  isList := rfl
  literals e he := ⟨.inl (hliterals e he).1, Site.isClosed_iff.2 (hliterals e he).2⟩
  calls := rfl
  parameter := rfl
  answers := rfl

end Runs

def commaNode : Node := .token none "" ","

/-- The product of a member of `x` and ten. -/
def tenfold (member : String) : Node :=
  .tree .binaryExpression none
    [(memberAccess "" "x" member).withRole .left, .token (some .operator) "" "*",
      .leaf .number (some .right) "" "10"]

/-- The object `{id:"…",n:…}`. -/
def countedNode (id number : String) : Node :=
  objectLiteral [pairLiteral "id" (textLiteral id), commaNode,
    pairLiteral "n" (.leaf .number none "" number)]

def countedElements : List Node := [countedNode "u" "1", commaNode, countedNode "v" "2"]

/-- The members `value:x.n*10,label:x.id`. -/
def tenfoldMembers : List Node :=
  [pairLiteral "value" (tenfold "n"), commaNode, pairLiteral "label" (memberAccess "" "x" "id")]

set_option maxRecDepth 4000 in
theorem counted_list_substituted :
    parse .plain
        "\nprobe([\x7bid:\"u\",n:1\x7d,\x7bid:\"v\",n:2\x7d].map(x=>(\x7bvalue:x.n*10,label:x.id\x7d)));" =
      mapProgram countedElements tenfoldMembers ∧
    bareProject.MapsList (mapSite countedElements tenfoldMembers) (mapList countedElements tenfoldMembers)
      (mapCallback countedElements tenfoldMembers) (mapBody countedElements tenfoldMembers) "x" ∧
    bareProject.UsesDirectly (mapBody countedElements tenfoldMembers) "x" ∧
    (∀ e ∈ (mapList countedElements tenfoldMembers).named,
      bareProject.Unlisted ((mapBody countedElements tenfoldMembers).substitute "x" e) ∧
      bareProject.OptionStaysAbove [("x", .expression e)] (mapBody countedElements tenfoldMembers) ∧
      bareProject.OptionStaysAbove [] ((mapBody countedElements tenfoldMembers).substitute "x" e)) ∧
    bareProject.matchOptions (mapSite countedElements tenfoldMembers) =
      .ok (.ok ⟨[.integer 10, .integer 20], [("10", "u"), ("20", "v")]⟩) := by
  have hmaps := @mapsList_by_hand countedElements tenfoldMembers (by decide +kernel)
  have hdirect : bareProject.UsesDirectly (mapBody countedElements tenfoldMembers) "x" :=
    ⟨by decide +kernel, fun halone => absurd halone (by decide +kernel), rfl, by decide +kernel⟩
  have hout : ∀ e ∈ (mapList countedElements tenfoldMembers).named,
      bareProject.Unlisted ((mapBody countedElements tenfoldMembers).substitute "x" e) := by
    decide +kernel
  have hstays : ∀ e ∈ (mapList countedElements tenfoldMembers).named,
      bareProject.OptionMeetsNoBound [("x", .expression e)] (mapBody countedElements tenfoldMembers) := by
    decide +kernel
  have hstays' : ∀ e ∈ (mapList countedElements tenfoldMembers).named,
      bareProject.OptionMeetsNoBound [] ((mapBody countedElements tenfoldMembers).substitute "x" e) := by
    decide +kernel
  refine ⟨by decide +kernel, hmaps, hdirect,
    fun e he => ⟨hout e he, (hstays e he).above, (hstays' e he).above⟩, ?_⟩
  rw [(mapping_substitutes hmaps hdirect hout (fun e he => (hstays e he).above)
    fun e he => (hstays' e he).above).2 _ rfl]
  rfl

/-- The members `value:x.a.b,label:"l"`. -/
def chainedMembers : List Node :=
  [pairLiteral "value"
      (methodNode (memberAccess "" "x" "a") "b"),
    commaNode, pairLiteral "label" (textLiteral "l")]

/-- The list `[{a:{b:"u"}}]`. -/
def nestedElements : List Node :=
  [objectLiteral [pairLiteral "a" (objectLiteral [pairLiteral "b" (textLiteral "u")])]]

set_option maxRecDepth 4000 in
theorem chained_member_lost :
    parse .plain "\nprobe([\x7ba:\x7bb:\"u\"\x7d\x7d].map(x=>(\x7bvalue:x.a.b,label:\"l\"\x7d)));" =
      mapProgram nestedElements chainedMembers ∧
    bareProject.MapsList (mapSite nestedElements chainedMembers) (mapList nestedElements chainedMembers)
      (mapCallback nestedElements chainedMembers) (mapBody nestedElements chainedMembers) "x" ∧
    (∀ e ∈ (mapList nestedElements chainedMembers).named,
      bareProject.OptionStaysAbove [("x", .expression e)] (mapBody nestedElements chainedMembers) ∧
      bareProject.OptionStaysAbove [] ((mapBody nestedElements chainedMembers).substitute "x" e)) ∧
    bareProject.substitutedChoices (mapBody nestedElements chainedMembers) "x"
      (mapList nestedElements chainedMembers).named = .ok ⟨[.text "u"], [("u", "l")]⟩ ∧
    bareProject.matchOptions (mapSite nestedElements chainedMembers) =
      .ok (.error .noCallbackValues) := by
  have hstays : ∀ e ∈ (mapList nestedElements chainedMembers).named,
      bareProject.OptionMeetsNoBound [("x", .expression e)] (mapBody nestedElements chainedMembers) ∧
      bareProject.OptionMeetsNoBound [] ((mapBody nestedElements chainedMembers).substitute "x" e) := by
    decide +kernel
  exact ⟨by decide +kernel, mapsList_by_hand (by decide +kernel),
    fun e he => ⟨(hstays e he).1.above, (hstays e he).2.above⟩, rfl, rfl⟩

end SettingsHarvest
