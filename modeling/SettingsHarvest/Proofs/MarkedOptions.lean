import SettingsHarvest.Proofs.ChoiceCorrespondence
import SettingsHarvest.Proofs.Leaves

/-! Marked options.

The search for the option that is marked as default goes through a list, and through the lists spread into
it, one element after another. What it finds is the value of the first option object with a literal
`default: true` and a value (`FirstMarked`), and that is a choice. Both the search and the choices ask for
values, though, and asking can come to a fault: the search then gives no answer at all, whatever is marked
further on (`Interrupted`), and neither do the choices (`ReadsOptions`). There is nothing else that could
part them (`marked_option_exact`). -/
namespace SettingsHarvest
open Syntax

namespace Project

/-! ### The options of a list -/

def elements (list : Site) : List Site := list.named.map Site.unwrap

/-- The elements that a spread stands for; none if it is not known what is spread. -/
def spreadIn (p : Project) (spread : Site) : List Site :=
  match p.spreadList? spread with
  | .ok (some inner) => elements inner
  | _ => []

/-- An element, and after a spread the elements it stands for. -/
def unfolded (p : Project) (e : Site) : List Site :=
  if e.hasKind .spreadElement then e :: p.spreadIn e else [e]

/-- All that the search asks about, in the order of the source. -/
def asked (p : Project) (list : Site) : List Site := (elements list).flatMap p.unfolded

/-- The elements of a list, one level of spreads put in place. -/
def listed (p : Project) (list : Site) : List Site :=
  (p.asked list).filter (!·.hasKind .spreadElement)

/-- An option object with a literal `default: true` and a value. -/
structure Marks (p : Project) (option : Site) (v : Value) : Prop where
  isObject : option.hasKind .object = true
  marked : ∃ d, option.memberValue? "default" = .ok (some d) ∧ d.isTrue = true
  value : ∃ x, option.memberValue? "value" = .ok (some x) ∧ p.evaluate x [] = .ok (.ok v)

/-- The value of the first marked option, and nothing if there is none. -/
inductive FirstMarked (p : Project) : List Site → Option Value → Prop where
  | none : FirstMarked p [] none
  | here {option : Site} {rest : List Site} {v : Value} :
    p.Marks option v → FirstMarked p (option :: rest) (some v)
  | later {option : Site} {rest : List Site} {r : Option Value} :
    (∀ v, ¬p.Marks option v) → FirstMarked p rest r → FirstMarked p (option :: rest) r

/-- An element that the search cannot get past: what it spreads is asked for in vain, or whether it is
marked, or its value although it is marked. -/
inductive Obstructs (p : Project) (e : Site) : Prop where
  | spread {f : Fault} : e.hasKind .spreadElement = true → p.spreadList? e = .error f → Obstructs p e
  | marker {f : Fault} : e.hasKind .object = true → e.memberValue? "default" = .error f → Obstructs p e
  | member {d : Site} {f : Fault} : e.hasKind .object = true →
    e.memberValue? "default" = .ok (some d) → d.isTrue = true →
    e.memberValue? "value" = .error f → Obstructs p e
  | value {d x : Site} {f : Fault} : e.hasKind .object = true →
    e.memberValue? "default" = .ok (some d) → d.isTrue = true →
    e.memberValue? "value" = .ok (some x) → p.evaluate x [] = .error f → Obstructs p e

/-- Something stands in the way of the search, and nothing before it is marked. -/
inductive Interrupted (p : Project) : List Site → Prop where
  | here {e : Site} {rest : List Site} : p.Obstructs e → Interrupted p (e :: rest)
  | later {e : Site} {rest : List Site} :
    (∀ v, ¬p.Marks e v) → Interrupted p rest → Interrupted p (e :: rest)

/-! ### One element -/

/-- What the search learns from one element. -/
def ask (p : Project) (e : Site) : Attempt (Option Value) :=
  if e.hasKind .spreadElement then (p.spreadList? e).map fun _ => none
  else if e.hasKind .object then p.markedValue? e
  else .ok none

theorem ask_spread {p : Project} {e : Site} (h : e.hasKind .spreadElement = true) :
    p.ask e = (p.spreadList? e).map fun _ => none := if_pos h

theorem ask_object {p : Project} {e : Site} (h : e.hasKind .object = true) :
    p.ask e = p.markedValue? e := by
  have hspread : e.hasKind .spreadElement = false := Site.hasKind_ne h (by decide)
  simp [ask, hspread, h]

theorem Marks.not_spread {p : Project} {e : Site} {v : Value} (h : p.Marks e v) :
    e.hasKind .spreadElement = false := Site.hasKind_ne h.isObject (by decide)

theorem not_marks_of_spread {p : Project} {e : Site} (h : e.hasKind .spreadElement = true) (v : Value) :
    ¬p.Marks e v := by
  intro hmarks
  rw [hmarks.not_spread] at h
  cases h

theorem markedValue_of_marked {p : Project} {e d : Site} (hmarker : e.memberValue? "default" = .ok (some d))
    (htrue : d.isTrue = true) : p.markedValue? e = p.optionValue? e [] := by
  rw [markedValue?, hmarker]
  exact if_pos htrue

theorem optionValue_of_member {p : Project} {e x : Site} (h : e.memberValue? "value" = .ok (some x)) :
    p.optionValue? e [] = (p.evaluate x []).map valueOf? := by
  rw [optionValue?, h]
  rfl

theorem markedValue_eq_some_iff {p : Project} {e : Site} {v : Value} (h : e.hasKind .object = true) :
    p.markedValue? e = .ok (some v) ↔ p.Marks e v := by
  constructor
  · intro hv
    obtain ⟨marker, hmarker, hv⟩ := bind_eq_ok.1 hv
    split at hv
    · next hmarked =>
      obtain ⟨d, rfl, htrue⟩ := (Option.any_eq_true _ _).1 hmarked
      exact ⟨h, ⟨d, hmarker, htrue⟩, optionValue_cases hv⟩
    · cases pure_eq_ok.1 hv
  · rintro ⟨-, ⟨d, hmarker, htrue⟩, x, hvalue, hv⟩
    rw [markedValue_of_marked hmarker htrue, optionValue_of_member hvalue, hv]
    rfl

/-- The search finds the value of an element exactly if it is marked. -/
theorem ask_eq_some_iff {p : Project} {e : Site} {v : Value} :
    p.ask e = .ok (some v) ↔ p.Marks e v := by
  by_cases hspread : e.hasKind .spreadElement = true
  · refine iff_of_false (fun h => ?_) (not_marks_of_spread hspread v)
    rw [ask_spread hspread] at h
    obtain ⟨source, -, hnone⟩ := exists_of_map h
    cases hnone
  · by_cases hobject : e.hasKind .object = true
    · rw [ask_object hobject, markedValue_eq_some_iff hobject]
    · refine iff_of_false (fun h => ?_) (fun h => hobject h.isObject)
      rw [ask, if_neg hspread, if_neg hobject] at h
      cases h

theorem exists_optionValue_error {p : Project} {e : Site} :
    (∃ f, p.optionValue? e [] = .error f) ↔ (∃ f, e.memberValue? "value" = .error f) ∨
      ∃ x f, e.memberValue? "value" = .ok (some x) ∧ p.evaluate x [] = .error f := by
  cases hvalue : e.memberValue? "value" with
  | error f => exact iff_of_true ⟨f, by rw [optionValue?, hvalue]; rfl⟩ (.inl ⟨f, rfl⟩)
  | ok value =>
    cases value with
    | none =>
      refine iff_of_false ?_ (by simp)
      intro h
      obtain ⟨f, hf⟩ := h
      rw [optionValue?, hvalue] at hf
      cases hf
    | some x =>
      rw [optionValue_of_member hvalue]
      cases hx : p.evaluate x [] with
      | error f => exact iff_of_true ⟨f, rfl⟩ (.inr ⟨x, f, rfl, hx⟩)
      | ok outcome =>
        refine iff_of_false ?_ (by simp [hx])
        intro h
        obtain ⟨f, hf⟩ := h
        cases hf

theorem exists_markedValue_error {p : Project} {e : Site} (h : e.hasKind .object = true) :
    (∃ f, p.markedValue? e = .error f) ↔ p.Obstructs e := by
  constructor
  · rintro ⟨f, hf⟩
    cases hmarker : e.memberValue? "default" with
    | error g => exact .marker h hmarker
    | ok marker =>
      rw [markedValue?, hmarker] at hf
      by_cases hmarked : marker.any Site.isTrue = true
      · obtain ⟨d, rfl, htrue⟩ := (Option.any_eq_true _ _).1 hmarked
        rw [← hmarker, ← markedValue?, markedValue_of_marked hmarker htrue] at hf
        rcases exists_optionValue_error.1 ⟨f, hf⟩ with ⟨g, hvalue⟩ | ⟨x, g, hvalue, hx⟩
        · exact .member h hmarker htrue hvalue
        · exact .value h hmarker htrue hvalue hx
      · cases (if_neg hmarked).symm.trans hf
  · intro hobstructs
    cases hobstructs with
    | spread hspread =>
      rw [Site.hasKind_ne hspread (by decide)] at h
      cases h
    | marker _ hmarker => exact ⟨_, by rw [markedValue?, hmarker]; rfl⟩
    | member _ hmarker htrue hvalue =>
      rw [markedValue_of_marked hmarker htrue]
      exact exists_optionValue_error.2 (.inl ⟨_, hvalue⟩)
    | value _ hmarker htrue hvalue hx =>
      rw [markedValue_of_marked hmarker htrue]
      exact exists_optionValue_error.2 (.inr ⟨_, _, hvalue, hx⟩)

/-- The search comes to a fault at an element exactly if that obstructs it. -/
theorem exists_ask_error {p : Project} {e : Site} : (∃ f, p.ask e = .error f) ↔ p.Obstructs e := by
  by_cases hspread : e.hasKind .spreadElement = true
  · rw [ask_spread hspread]
    constructor
    · rintro ⟨f, hf⟩
      cases hlist : p.spreadList? e with
      | error g => exact .spread hspread hlist
      | ok source =>
        rw [hlist] at hf
        cases hf
    · intro hobstructs
      have hobject : ¬e.hasKind .object = true := by
        rw [Site.hasKind_ne hspread (by decide)]
        exact Bool.false_ne_true
      cases hobstructs with
      | spread _ hlist => exact ⟨_, by rw [hlist]; rfl⟩
      | marker h | member h | value h => exact absurd h hobject
  · by_cases hobject : e.hasKind .object = true
    · rw [ask_object hobject, exists_markedValue_error hobject]
    · rw [ask, if_neg hspread, if_neg hobject]
      apply iff_of_false
      · intro h
        obtain ⟨f, hf⟩ := h
        cases hf
      · intro hobstructs
        cases hobstructs with
        | spread h => exact hspread h
        | marker h | member h | value h => exact hobject h

/-! ### The whole search -/

/-- The search among elements, each without its wrappers. -/
theorem markedAmong_eq (p : Project) (inside : Site → Attempt (Option Value)) (sites : List Site) :
    p.markedAmong inside sites = firstSome (fun e =>
      if e.hasKind .spreadElement then do
        match ← p.spreadList? e with
        | some list => inside list
        | none => return none
      else if e.hasKind .object then p.markedValue? e
      else .ok none) (sites.map Site.unwrap) := by
  rw [markedAmong]
  induction sites with
  | nil => rfl
  | cons site rest ih =>
    rw [List.map_cons, firstSome, firstSome, ih]
    congr 1
    unfold spreadList?
    dsimp only
    cases site.unwrap.spreadSource? <;> rfl

/-- Spreads in a list that was spread in are asked for, and left at that. -/
theorem innerMarker_eq (p : Project) (list : Site) :
    p.markedAmong (fun _ => .ok none) list.named = firstSome p.ask (elements list) := by
  rw [markedAmong_eq]
  congr 1
  funext e
  rw [ask]
  split
  · cases p.spreadList? e with
    | error f => rfl
    | ok source => cases source <;> rfl
  · rfl

/-- The search asks one element after another. -/
theorem markerInList_eq (p : Project) (list : Site) :
    p.markerInList? list = firstSome p.ask (p.asked list) := by
  rw [markerInList?, markedAmong_eq]
  refine firstSome_flatMap fun e => ?_
  rw [unfolded]
  split
  · next hspread =>
    rw [firstSome, ask_spread hspread, spreadIn]
    cases p.spreadList? e with
    | error f => rfl
    | ok source =>
      cases source with
      | none => rfl
      | some inner => exact innerMarker_eq p inner
  · next hspread =>
    rw [firstSome_singleton, ask, if_neg hspread]

theorem not_marks_of_ask {p : Project} {e : Site} (h : p.ask e = .ok none) (v : Value) : ¬p.Marks e v := by
  intro hmarks
  cases h.symm.trans (ask_eq_some_iff.2 hmarks)

theorem not_obstructs_of_ask {p : Project} {e : Site} {found : Option Value} (h : p.ask e = .ok found) :
    ¬p.Obstructs e := by
  intro hobstructs
  obtain ⟨f, hf⟩ := exists_ask_error.2 hobstructs
  cases h.symm.trans hf

/-- What is asked about without coming to a marked option does not count. -/
theorem firstMarked_filter {p : Project} {e : Site} {rest : List Site} {r : Option Value}
    (hnone : ∀ v, ¬p.Marks e v) (h : p.FirstMarked (rest.filter (!·.hasKind .spreadElement)) r) :
    p.FirstMarked ((e :: rest).filter (!·.hasKind .spreadElement)) r := by
  rw [List.filter_cons]
  split
  · exact .later hnone h
  · exact h

/-- What a search finds is the first marked option. -/
theorem firstMarked_of_search {p : Project} {sites : List Site} {r : Option Value}
    (h : firstSome p.ask sites = .ok r) :
    p.FirstMarked (sites.filter (!·.hasKind .spreadElement)) r := by
  induction sites with
  | nil =>
    cases h
    exact .none
  | cons e rest ih =>
    rw [firstSome] at h
    split at h
    · next hnone => exact firstMarked_filter (not_marks_of_ask hnone) (ih h)
    · next hanswer =>
      cases r with
      | none => exact absurd h hanswer
      | some v =>
        have hmarks : p.Marks e v := ask_eq_some_iff.1 h
        rw [List.filter_cons_of_pos (by simp [hmarks.not_spread])]
        exact .here hmarks

/-- A search comes to an answer exactly if it is not interrupted. -/
theorem exists_search_iff {p : Project} {sites : List Site} :
    (∃ r, firstSome p.ask sites = .ok r) ↔ ¬p.Interrupted sites := by
  induction sites with
  | nil =>
    refine iff_of_true ⟨none, rfl⟩ ?_
    intro hinterrupted
    cases hinterrupted
  | cons e rest ih =>
    rw [firstSome]
    -- A fault and a mark each decide the search where they stand, anything else leaves it to the rest.
    cases he : p.ask e with
    | error f =>
      have hobstructs : p.Obstructs e := exists_ask_error.1 ⟨f, he⟩
      refine iff_of_false ?_ (not_not_intro (.here hobstructs))
      intro h
      obtain ⟨r, hr⟩ := h
      cases hr
    | ok found =>
      cases found with
      | none =>
        refine ih.trans (not_congr ⟨.later (not_marks_of_ask he), ?_⟩)
        intro hinterrupted
        cases hinterrupted with
        | here hobstructs => exact absurd hobstructs (not_obstructs_of_ask he)
        | later _ hrest => exact hrest
      | some v =>
        refine iff_of_true ⟨some v, rfl⟩ ?_
        intro hinterrupted
        cases hinterrupted with
        | here hobstructs => exact not_obstructs_of_ask he hobstructs
        | later hnone _ => exact hnone v (ask_eq_some_iff.1 he)

/-! ### The options read beside it -/

/-- The options of a list can be read: every spread can be asked for, every option for its value and its
label, and where there is a label the value can be written out. -/
structure ReadsOptions (p : Project) (list : Site) : Prop where
  spreads : ∀ e ∈ elements list, e.hasKind .spreadElement = true →
    ∃ source, p.spreadList? e = .ok source
  options : ∀ o ∈ p.listed list, ∃ outcome, p.elementOption o = .ok outcome
  labels : ∀ o ∈ p.listed list, ∀ option, p.elementOption o = .ok (.ok option) → Choices.Keyed option

theorem listed_eq (p : Project) (list : Site) : p.listed list =
    (elements list).flatMap fun e => (p.unfolded e).filter (!·.hasKind .spreadElement) :=
  List.filter_flatMap

theorem listed_unfolded {p : Project} {e : Site} (h : e.hasKind .spreadElement = true) :
    (p.unfolded e).filter (!·.hasKind .spreadElement) =
      (p.spreadIn e).filter (!·.hasKind .spreadElement) := by
  rw [unfolded, if_pos h, List.filter_cons_of_neg (by simp [h])]

theorem listed_plain {p : Project} {e : Site} (h : ¬e.hasKind .spreadElement = true) :
    (p.unfolded e).filter (!·.hasKind .spreadElement) = [e] := by
  rw [unfolded, if_neg h]
  exact List.filter_cons_of_pos (by simp [h])

theorem optionsAt_spread {p : Project} {e : Site} (h : e.hasKind .spreadElement = true) :
    p.optionsAt e = (do
      match ← p.spreadList? e with
      | none => return [.error (.unresolvedSpread e.text)]
      | some inner => p.innerOptions inner) := by
  rw [optionsAt, if_pos h]
  unfold spreadList?
  cases e.spreadSource? <;> rfl

theorem exists_optionsAt_iff {p : Project} {e : Site} :
    (∃ options, p.optionsAt e = .ok options) ↔
      (e.hasKind .spreadElement = true → ∃ source, p.spreadList? e = .ok source) ∧
      ∀ o ∈ (p.unfolded e).filter (!·.hasKind .spreadElement),
        ∃ outcome, p.elementOption o = .ok outcome := by
  by_cases hspread : e.hasKind .spreadElement = true
  · rw [listed_unfolded hspread, optionsAt_spread hspread, spreadIn]
    cases p.spreadList? e with
    | error f =>
      apply iff_of_false
      · intro h
        obtain ⟨options, h⟩ := h
        cases h
      · intro h
        obtain ⟨source, hsource⟩ := h.1 hspread
        cases hsource
    | ok source =>
      cases source with
      | none => exact iff_of_true ⟨_, rfl⟩ ⟨fun _ => ⟨none, rfl⟩, by simp⟩
      | some inner => exact exists_mapM_iff.trans (and_iff_right fun _ => ⟨some inner, rfl⟩).symm
  · rw [listed_plain hspread, optionsAt, if_neg hspread]
    cases he : p.elementOption e with
    | error f =>
      apply iff_of_false
      · intro h
        obtain ⟨options, h⟩ := h
        cases h
      · intro h
        obtain ⟨outcome, houtcome⟩ := h.2 e (List.mem_singleton_self e)
        cases he.symm.trans houtcome
    | ok outcome =>
      refine iff_of_true ⟨_, rfl⟩ ⟨fun h => absurd h hspread, fun o ho => ?_⟩
      rw [List.mem_singleton.1 ho]
      exact ⟨outcome, he⟩

/-- What is read from an element are the options of the elements it stands for. -/
theorem mem_optionsAt_iff {p : Project} {e : Site} {options : List (Outcome (Value × Option String))}
    {option : Value × Option String} (h : p.optionsAt e = .ok options) : .ok option ∈ options ↔
      ∃ o ∈ (p.unfolded e).filter (!·.hasKind .spreadElement), p.elementOption o = .ok (.ok option) := by
  by_cases hspread : e.hasKind .spreadElement = true
  · rw [optionsAt_spread hspread] at h
    obtain ⟨source, hsource, h⟩ := bind_eq_ok.1 h
    rw [listed_unfolded hspread, spreadIn, hsource]
    cases source with
    | none =>
      cases pure_eq_ok.1 h
      simp
    | some inner => exact mem_mapM_iff h
  · rw [optionsAt, if_neg hspread] at h
    obtain ⟨outcome, houtcome, h⟩ := bind_eq_ok.1 h
    cases pure_eq_ok.1 h
    rw [listed_plain hspread]
    simp [houtcome, eq_comm]

theorem exists_listOptions_iff {p : Project} {list : Site} :
    (∃ options, p.listOptions list = .ok options) ↔
      (∀ e ∈ elements list, e.hasKind .spreadElement = true → ∃ source, p.spreadList? e = .ok source) ∧
      ∀ o ∈ p.listed list, ∃ outcome, p.elementOption o = .ok outcome := by
  have hgroups : (∃ options, p.listOptions list = .ok options) ↔
      ∀ e ∈ elements list, ∃ options, p.optionsAt e = .ok options := by
    rw [listOptions_eq, ← exists_mapM_iff]
    constructor
    · rintro ⟨options, h⟩
      obtain ⟨groups, hgroups, -⟩ := bind_eq_ok.1 h
      exact ⟨groups, hgroups⟩
    · rintro ⟨groups, hgroups⟩
      exact ⟨groups.flatten, bind_eq_ok.2 ⟨groups, hgroups, rfl⟩⟩
  rw [hgroups]
  constructor
  · intro h
    refine ⟨fun e he => (exists_optionsAt_iff.1 (h e he)).1, fun o ho => ?_⟩
    rw [listed_eq] at ho
    obtain ⟨e, he, ho⟩ := List.mem_flatMap.1 ho
    exact (exists_optionsAt_iff.1 (h e he)).2 o ho
  · rintro ⟨hspreads, hoptions⟩ e he
    refine exists_optionsAt_iff.2 ⟨hspreads e he, fun o ho => hoptions o ?_⟩
    rw [listed_eq]
    exact List.mem_flatMap.2 ⟨e, he, ho⟩

theorem mem_listOptions_iff {p : Project} {list : Site} {options : List (Outcome (Value × Option String))}
    {option : Value × Option String} (h : p.listOptions list = .ok options) : .ok option ∈ options ↔
      ∃ o ∈ p.listed list, p.elementOption o = .ok (.ok option) := by
  rw [listOptions_eq] at h
  obtain ⟨groups, hgroups, h⟩ := bind_eq_ok.1 h
  cases pure_eq_ok.1 h
  rw [List.mem_flatten, listed_eq]
  constructor
  · rintro ⟨group, hgroup, hoption⟩
    obtain ⟨e, he, hread⟩ := (mem_mapM_iff hgroups).1 hgroup
    obtain ⟨o, ho, houtcome⟩ := (mem_optionsAt_iff hread).1 hoption
    exact ⟨o, List.mem_flatMap.2 ⟨e, he, ho⟩, houtcome⟩
  · rintro ⟨o, ho, houtcome⟩
    obtain ⟨e, he, ho⟩ := List.mem_flatMap.1 ho
    obtain ⟨group, hgroup, hread⟩ := exists_mem_of_mapM hgroups he
    exact ⟨group, hgroup, (mem_optionsAt_iff hread).2 ⟨o, ho, houtcome⟩⟩

/-- The options that a list comes to can be collected exactly if all of it can be read. -/
theorem exists_listChoices_iff {p : Project} {list : Site} :
    (∃ c, (do Choices.collect (← p.listOptions list)) = .ok c) ↔ p.ReadsOptions list := by
  constructor
  · rintro ⟨c, h⟩
    obtain ⟨options, hoptions, hc⟩ := bind_eq_ok.1 h
    obtain ⟨hspreads, hread⟩ := exists_listOptions_iff.1 ⟨options, hoptions⟩
    refine ⟨hspreads, hread, fun o ho option houtcome => ?_⟩
    exact Choices.exists_collect_iff.1 ⟨c, hc⟩ option ((mem_listOptions_iff hoptions).2 ⟨o, ho, houtcome⟩)
  · intro h
    obtain ⟨options, hoptions⟩ := exists_listOptions_iff.2 ⟨h.spreads, h.options⟩
    have hkeyed (option : Value × Option String) (hoption : .ok option ∈ options) :
        Choices.Keyed option := by
      obtain ⟨o, ho, houtcome⟩ := (mem_listOptions_iff hoptions).1 hoption
      exact h.labels o ho option houtcome
    obtain ⟨c, hc⟩ := Choices.exists_collect_iff.2 hkeyed
    exact ⟨c, bind_eq_ok.2 ⟨options, hoptions, hc⟩⟩

/-! ### Marker and choices -/

theorem defaultMarker_of_list {p : Project} {setting options list : Site}
    (hoptions : setting.memberValue? "options" = .ok (some options))
    (hlist : p.optionsExpression options = .ok list) (harray : list.hasKind .array = true) :
    p.defaultMarker? setting = firstSome p.ask (p.asked list) := by
  rw [defaultMarker?, hoptions, ← markerInList_eq]
  dsimp only [bind, Except.bind]
  rw [hlist]
  exact if_pos harray

/-- The choices of a list with a marked option are the values of its options. -/
theorem choicesOf_of_list {p : Project} {setting options list : Site} {v : Value}
    (hoptions : setting.memberValue? "options" = .ok (some options))
    (hlist : p.optionsExpression options = .ok list) (harray : list.hasKind .array = true)
    (hv : p.markerInList? list = .ok (some v)) :
    p.choicesOf setting = (do Choices.collect (← p.listOptions list)) := by
  rw [choicesOf, hoptions]
  dsimp only [bind, Except.bind]
  rw [matchOptions, hlist]
  dsimp only [bind, Except.bind]
  rw [firstChoices_marked harray hv]
  cases p.listOptions list with
  | error f => rfl
  | ok options =>
    dsimp only [bind, Except.bind]
    cases Choices.collect options <;> rfl

end Project

/-- **The marked option of a list.** The search for it comes to an answer exactly if nothing interrupts it,
and the answer is the value of the first option that is marked, spreads put in place. Such a value is a
choice, provided that the options can be read at all. -/
theorem marked_option_exact {p : Project} {setting options list : Site}
    (hoptions : setting.memberValue? "options" = .ok (some options))
    (hlist : p.optionsExpression options = .ok list) (harray : list.hasKind .array = true) :
    ((∃ r, p.defaultMarker? setting = .ok r) ↔ ¬p.Interrupted (p.asked list)) ∧
    (∀ r, p.defaultMarker? setting = .ok r → p.FirstMarked (p.listed list) r) ∧
    ∀ v, p.defaultMarker? setting = .ok (some v) →
      ((∃ c, p.choicesOf setting = .ok c) ↔ p.ReadsOptions list) ∧
      ∀ c, p.choicesOf setting = .ok c → v ∈ c.values := by
  have hmarker := Project.defaultMarker_of_list hoptions hlist harray
  refine ⟨?_, fun r hr => ?_, fun v hv => ?_⟩
  · rw [hmarker]
    exact Project.exists_search_iff
  · rw [hmarker] at hr
    exact Project.firstMarked_of_search hr
  · rw [hmarker, ← Project.markerInList_eq] at hv
    have hchoices := Project.choicesOf_of_list hoptions hlist harray hv
    rw [hchoices]
    refine ⟨Project.exists_listChoices_iff, fun c hc => ?_⟩
    obtain ⟨read, hread, hc⟩ := bind_eq_ok.1 hc
    exact (Choices.mem_collect hc).2 (Project.mem_listOptions hv hread)

/-- A setting with a list of options. -/
def optionsSetting (options : List Node) : Site :=
  siteOf (objectLiteral [pairLiteral "options" (arrayLiteral options)])

def spreadLiteral (source : Node) : Node := .tree .spreadElement none [.token none "" "...", source]

/-- A text, an option spread in, one that is marked without a value, and the one to be found. -/
def mixedOptions : Site :=
  optionsSetting [textLiteral "plain",
    spreadLiteral (arrayLiteral [objectLiteral [pairLiteral "value" (textLiteral "spread")]]),
    objectLiteral [pairLiteral "default" trueLiteral],
    objectLiteral [pairLiteral "value" (textLiteral "marked"), pairLiteral "default" trueLiteral]]

theorem marked_among_mixed :
    ∃ options list, mixedOptions.memberValue? "options" = .ok (some options) ∧
      bareProject.optionsExpression options = .ok list ∧ list.hasKind .array = true ∧
      bareProject.defaultMarker? mixedOptions = .ok (some (.text "marked")) ∧
      bareProject.FirstMarked (bareProject.listed list) (some (.text "marked")) ∧
      ∃ c, bareProject.choicesOf mixedOptions = .ok c ∧ .text "marked" ∈ c.values := by
  obtain ⟨options, list, hoptions, hlist, harray⟩ : ∃ options list,
      mixedOptions.memberValue? "options" = .ok (some options) ∧
        bareProject.optionsExpression options = .ok list ∧ list.hasKind .array = true :=
    ⟨_, _, rfl, rfl, rfl⟩
  have hmarker : bareProject.defaultMarker? mixedOptions = .ok (some (.text "marked")) := rfl
  obtain ⟨c, hc⟩ : ∃ c, bareProject.choicesOf mixedOptions = .ok c := ⟨_, rfl⟩
  obtain ⟨-, hfirst, hchoices⟩ := marked_option_exact hoptions hlist harray
  exact ⟨options, list, hoptions, hlist, harray, hmarker, hfirst _ hmarker, c, hc,
    (hchoices _ hmarker).2 c hc⟩

/-- An element of a list, looked up by a superscript. -/
def superscriptElement : Node :=
  .tree .subscriptExpression none
    [(arrayLiteral [textLiteral "x"]).withRole .object, .token none "" "[",
      (textLiteral "²").withRole .index, .token none "" "]"]

/-- A marked option whose value is asked for in vain, and a marked option behind it. -/
def obstructedOptions : Site :=
  optionsSetting
    [objectLiteral [pairLiteral "value" superscriptElement, pairLiteral "default" trueLiteral],
     objectLiteral [pairLiteral "value" (textLiteral "marked"), pairLiteral "default" trueLiteral]]

theorem marked_behind_fault_missed :
    ∃ options list, obstructedOptions.memberValue? "options" = .ok (some options) ∧
      bareProject.optionsExpression options = .ok list ∧ list.hasKind .array = true ∧
      bareProject.FirstMarked (bareProject.listed list) (some (.text "marked")) ∧
      bareProject.defaultMarker? obstructedOptions = .error (.notInteger 10 "²") := by
  refine ⟨_, _, rfl, rfl, rfl, .later (fun v hmarks => ?_) (.here ?_), rfl⟩
  · obtain ⟨x, hvalue, hx⟩ := hmarks.value
    cases hvalue
    cases hx
  · exact ⟨rfl, ⟨_, rfl, rfl⟩, _, rfl, rfl⟩

end SettingsHarvest
