import SettingsHarvest.Proofs.LookupTables
import SettingsHarvest.Proofs.MappedLists
import SettingsHarvest.Proofs.Shorthands

/-! Lists of constants.

Two idioms read a list without objects and spreads, one as a list of constants and the other as a list of
option objects that happens to have no objects in it. Both go by what the elements evaluate to
(`Choices.ofConstants?`), so the first one is a shortcut: it gives what the second one gives, and a list of
any sort offers the choices that the second idiom finds in it. `Array.from` reads the list in the same way
(`literalList_shortcut`). -/
namespace SettingsHarvest
open Syntax Project

/-- A list none of whose elements is an object or a spread. -/
structure Syntax.Site.IsPlainList (list : Site) : Prop where
  isArray : list.hasKind .array = true
  noObject : ∀ e ∈ list.named, e.unwrap.hasKind .object = false
  noSpread : ∀ e ∈ list.named, e.unwrap.hasKind .spreadElement = false

/-- An option that is just a value. -/
def unlabelled (o : Outcome Value) : Outcome (Value × Option String) := o.map fun v => (v, none)

namespace Choices

/-- The values among outcomes as choices; none if there are outcomes, and all of them are failures. -/
def ofConstants? (outcomes : List (Outcome Value)) : Option Choices :=
  if !outcomes.isEmpty && (outcomes.filterMap valueOf?).isEmpty then Option.none
  else some ⟨outcomes.filterMap valueOf?, []⟩

theorem collectFrom_unlabelled (c : Choices) (outcomes : List (Outcome Value)) :
    c.collectFrom (outcomes.map unlabelled) =
      .ok ⟨c.values ++ outcomes.filterMap valueOf?, c.labels⟩ := by
  induction outcomes generalizing c with
  | nil => simp [collectFrom, pure, Except.pure]
  | cons o rest ih =>
    cases o with
    | error f => exact ih c
    | ok v =>
      have hadd : c.add (v, Option.none) = .ok ⟨c.values ++ [v], c.labels⟩ := rfl
      refine (collectFrom_ok c _ _).trans ?_
      rw [hadd]
      refine (ih _).trans ?_
      simp [valueOf?]

theorem collect_unlabelled (outcomes : List (Outcome Value)) :
    collect (outcomes.map unlabelled) = .ok ⟨outcomes.filterMap valueOf?, []⟩ :=
  collectFrom_unlabelled none outcomes

theorem labels_of_constants {outcomes : List (Outcome Value)} {c : Choices}
    (h : ofConstants? outcomes = some c) : c.labels = [] := by
  rw [ofConstants?] at h
  split at h
  · cases h
  · cases h
    rfl

end Choices

namespace Project

variable {p : Project} {s list : Site}

/-- The choices an idiom finds: none if it does not apply, and none if it fails. -/
def chosen (p : Project) (s : Site) (idiom : Idiom) : Attempt (Option Choices) :=
  (·.bind valueOf?) <$> idiom p s

/-- Whichever idiom finds choices first gives them; failures are not kept for long. -/
theorem valueOf_firstChoices (last : Failure) (tried : List Idiom) :
    valueOf? <$> p.firstChoices s last tried = firstSome (p.chosen s) tried := by
  induction tried generalizing last with
  | nil => rfl
  | cons idiom rest ih =>
    rw [firstChoices, firstSome, chosen]
    cases idiom p s with
    | error f => rfl
    | ok found =>
      obtain _ | o := found
      · exact ih last
      · cases o with
        | ok c => rfl
        | error f => exact ih f

theorem chosen_of_skipped {idiom : Idiom} (h : idiom p s = doesNotApply) : p.chosen s idiom = .ok none := by
  rw [chosen, h]
  rfl

theorem firstSome_of_skipped {tried : List Idiom} (h : ∀ idiom ∈ tried, idiom p s = .ok none) :
    firstSome (p.chosen s) tried = .ok none :=
  firstSome_eq_none fun idiom hidiom => chosen_of_skipped (h idiom hidiom)

theorem evaluate_unwrap (b : Bindings) : p.evaluate s.unwrap b = p.evaluate s b := by
  unfold evaluate evaluationDepth
  rw [evaluateWithin, evaluateWithin, Site.unwrap_unwrap]

/-! ### Plain lists -/

theorem isPlainList_iff (hlist : list.hasKind .array = true) : list.IsPlainList ↔
    (list.named.any fun e => e.unwrap.hasKind .object || e.unwrap.hasKind .spreadElement) = false := by
  simp only [List.any_eq_false, Bool.or_eq_true, not_or, Bool.not_eq_true, forall_and]
  exact ⟨fun h => ⟨h.noObject, h.noSpread⟩, fun ⟨hobject, hspread⟩ => ⟨hlist, hobject, hspread⟩⟩

/-- The options of a plain list are what its elements evaluate to. -/
theorem listOptions_of_plain (h : list.IsPlainList) :
    p.listOptions list = List.map unlabelled <$> list.named.mapM (p.evaluate · []) := by
  have helements : List.Forall₂ (fun e e' => e ∈ list.named ∧ e' = e.unwrap) list.named
      (list.named.map Site.unwrap) :=
    List.forall₂_map_right_iff.2 (List.forall₂_same.2 fun e he => ⟨he, rfl⟩)
  have hoptions : Parallel (List.Forall₂ fun o options => options = [unlabelled o])
      (list.named.mapM (p.evaluate · [])) ((list.named.map Site.unwrap).mapM p.optionsAt) := by
    refine Parallel.mapM helements ?_
    rintro e _ ⟨he, rfl⟩
    rw [optionsAt, h.noSpread e he, elementOption, h.noObject e he, evaluate_unwrap]
    cases p.evaluate e [] with
    | ok o => exact .ok rfl
    | error f => exact .fault
  rw [listOptions_eq]
  refine (hoptions.map (Q := fun options outcomes => options = outcomes) fun outcomes options hall =>
    show outcomes.map unlabelled = options.flatten from ?_).eq.symm
  induction hall with
  | nil => rfl
  | cons hfirst _ ih => rw [hfirst, List.flatten_cons, ← ih, List.map_cons, List.singleton_append]

/-- Of what was read the values are chosen; if there are none, all of it is a failure. -/
theorem chosen_constants (outcomes : List (Outcome Value)) (f : Failure) :
    (·.bind valueOf?) <$> (if !outcomes.isEmpty && (outcomes.filterMap valueOf?).isEmpty then
      applies (.error f) else applies (.ok ⟨outcomes.filterMap valueOf?, []⟩)) =
      Except.ok (Choices.ofConstants? outcomes) := by
  rw [Choices.ofConstants?]
  split <;> rfl

/-- Both ways to read a plain list come to the constants in it. -/
theorem chosen_objectList (h : list.IsPlainList) :
    p.chosen list objectList = Choices.ofConstants? <$> list.named.mapM (p.evaluate · []) := by
  rw [chosen, objectList, h.isArray, listOptions_of_plain h]
  cases list.named.mapM (p.evaluate · []) with
  | error f => rfl
  | ok outcomes =>
    show (·.bind valueOf?) <$> (Choices.collect (outcomes.map unlabelled) >>= fun choices =>
      if !(outcomes.map unlabelled).isEmpty && choices.isEmpty then applies _ else applies _) = _
    rw [Choices.collect_unlabelled, List.isEmpty_map]
    exact chosen_constants outcomes _

theorem chosen_literalList (h : list.IsPlainList) :
    p.chosen list literalList = Choices.ofConstants? <$> list.named.mapM (p.evaluate · []) := by
  rw [chosen, literalList, h.isArray, (isPlainList_iff h.isArray).1 h]
  cases houtcomes : list.named.mapM (p.evaluate · []) with
  | error f => rfl
  | ok outcomes =>
    have hempty : list.named.isEmpty = outcomes.isEmpty := forall₂_isEmpty (forall₂_of_mapM_eq_ok houtcomes)
    show (·.bind valueOf?) <$> (if !list.named.isEmpty && (outcomes.filterMap valueOf?).isEmpty then
      applies _ else applies _) = Except.ok (Choices.ofConstants? outcomes)
    rw [hempty]
    exact chosen_constants outcomes _

/-- A list that is not plain is no list of constants. -/
theorem literalList_of_not_plain (hlist : list.hasKind .array = true) (h : ¬list.IsPlainList) :
    literalList p list = doesNotApply := by
  rw [isPlainList_iff hlist, Bool.not_eq_false] at h
  rw [literalList, hlist, h]
  rfl

theorem matchOptions_of_list (hlist : list.hasKind .array = true) :
    valueOf? <$> p.matchOptions list = p.chosen list objectList := by
  have hself : list.unwrap = list := Site.unwrap_eq_self hlist rfl
  have hskip : firstSome (p.chosen list) [mappedList, copiedList, tableList] = .ok none :=
    firstSome_of_skipped (Site.idioms_of_no_call (Site.hasKind_ne hlist (by decide)))
  have hidioms : valueOf? <$> p.matchOptions list = firstSome (p.chosen list) idioms := by
    rw [matchOptions, Site.optionsExpression_of_array (hself.symm ▸ hlist), hself]
    exact valueOf_firstChoices _ idioms
  rw [hidioms, idioms, firstSome, firstSome, hskip]
  by_cases hplain : list.IsPlainList
  · rw [chosen_literalList hplain, ← chosen_objectList hplain]
    cases p.chosen list objectList with
    | error f => rfl
    | ok found => cases found <;> rfl
  · rw [chosen_of_skipped (literalList_of_not_plain hlist hplain)]
    cases p.chosen list objectList with
    | error f => rfl
    | ok found => cases found <;> rfl

/-- A copy of a list offers the constants in it. -/
theorem matchOptions_of_copy {call a : Site} (hcall : call.isMethodCallOn "Array" "from" = true)
    (ha : call.firstArgument? = some a) (hlist : list.hasKind .array = true) (hcopied : a.unwrap = list) :
    valueOf? <$> p.matchOptions call = p.chosen list literalList := by
  have hmethod : call.isMethodCall "from" = true := Bool.and_elim_left hcall
  have hkind : call.hasKind .callExpression = true := Bool.and_elim_left hmethod
  have hself : call.unwrap = call := Site.unwrap_eq_self hkind rfl
  have harray : p.array? a = .ok (some list) := by
    rw [array?, ← denoted_unwrap, hcopied, denoted_self (Site.unwrap_eq_self hlist rfl)
      (Site.hasKind_ne hlist (by decide)) (Site.hasKind_ne hlist (by decide))]
    show Except.ok (onlyKind .array (some list)) = _
    rw [onlyKind, Option.filter_some, if_pos hlist]
  have hcopy : p.chosen call copiedList = p.chosen list literalList := by
    rw [chosen, chosen, copiedList, hcall, ha]
    dsimp only
    rw [harray]
    dsimp only [bind, Except.bind]
    cases literalList p list with
    | error f => rfl
    | ok found => cases found <;> rfl
  have hmap : call.isMethodCall "map" = false := isMethodCall_ne hmethod (by decide)
  have hmapped : mappedList p call = doesNotApply := by rw [mappedList, hmap]; rfl
  have htable : tableList p call = doesNotApply := by rw [tableList, hmap]; rfl
  have hidioms : valueOf? <$> p.matchOptions call = firstSome (p.chosen call) idioms := by
    rw [matchOptions, optionsExpression_call (hself.symm ▸ hkind), hself]
    exact valueOf_firstChoices _ idioms
  rw [hidioms, idioms, firstSome, chosen_of_skipped (lists_skip hkind).1, firstSome,
    chosen_of_skipped (lists_skip hkind).2, firstSome, chosen_of_skipped hmapped, firstSome, hcopy,
    firstSome, chosen_of_skipped htable]
  cases p.chosen list literalList with
  | error f => rfl
  | ok found => cases found <;> rfl

/-- **For a plain list the idiom for constants finds what the idiom for option objects finds, without
labels; a list of any sort offers the choices that the latter finds, and a copy of a plain list offers the
same choices as the list.** -/
theorem literalList_shortcut (p : Project) {list : Site} (hlist : list.hasKind .array = true) :
    (list.IsPlainList → p.chosen list literalList = p.chosen list objectList ∧
      ∀ c, p.chosen list objectList = .ok (some c) → c.labels = []) ∧
    valueOf? <$> p.matchOptions list = p.chosen list objectList ∧
    (list.IsPlainList → ∀ call a, call.isMethodCallOn "Array" "from" = true →
      call.firstArgument? = some a → a.unwrap = list →
        valueOf? <$> p.matchOptions call = valueOf? <$> p.matchOptions list) := by
  refine ⟨fun hplain => ⟨?_, fun c hc => ?_⟩, matchOptions_of_list hlist, ?_⟩
  · rw [chosen_literalList hplain, chosen_objectList hplain]
  · rw [chosen_objectList hplain] at hc
    obtain ⟨outcomes, -, hc⟩ := exists_of_map hc
    exact Choices.labels_of_constants hc
  · intro hplain call a hcall ha hcopied
    rw [matchOptions_of_copy hcall ha hlist hcopied, matchOptions_of_list hlist,
      chosen_literalList hplain, chosen_objectList hplain]

end Project

/-- The call `Array.from(["a",("b"),x])`. -/
def mixedCopy : Node :=
  callNode (methodNode (nameNode "Array") "from") (arrayLiteral
    [textLiteral "a", commaNode, parenthesesNode "" (textLiteral "b"), commaNode, nameNode "x"])

def mixedCopySite : Site := probedSite (.tree .program none [probeNode mixedCopy]) mixedCopy

def mixedList : Site := mixedCopySite.firstArgument?.get rfl

set_option maxRecDepth 4000 in
/-- A list with a text, another one in parentheses and a name that stands for nothing. -/
theorem literalList_shortcut_mixed :
    parse .plain "\nprobe(Array.from([\"a\",(\"b\"),x]));" = .tree .program none [probeNode mixedCopy] ∧
    mixedList.hasKind .array = true ∧ mixedList.IsPlainList ∧
    mixedCopySite.isMethodCallOn "Array" "from" = true ∧
    mixedCopySite.firstArgument? = some mixedList ∧ mixedList.unwrap = mixedList ∧
    bareProject.chosen mixedList objectList = .ok (some ⟨[.text "a", .text "b"], []⟩) ∧
    bareProject.chosen mixedList literalList = .ok (some ⟨[.text "a", .text "b"], []⟩) ∧
    valueOf? <$> bareProject.matchOptions mixedList = .ok (some ⟨[.text "a", .text "b"], []⟩) ∧
    valueOf? <$> bareProject.matchOptions mixedCopySite = .ok (some ⟨[.text "a", .text "b"], []⟩) := by
  have hlist : mixedList.hasKind .array = true := rfl
  have hplain : mixedList.IsPlainList := (isPlainList_iff hlist).2 rfl
  have hobjects : bareProject.chosen mixedList objectList = .ok (some ⟨[.text "a", .text "b"], []⟩) := rfl
  obtain ⟨hsame, hall, hcopy⟩ := literalList_shortcut bareProject hlist
  refine ⟨by decide +kernel, hlist, hplain, rfl, rfl, rfl, hobjects, (hsame hplain).1.trans hobjects,
    hall.trans hobjects, ?_⟩
  rw [hcopy hplain mixedCopySite mixedList rfl rfl rfl, hall, hobjects]

end SettingsHarvest
