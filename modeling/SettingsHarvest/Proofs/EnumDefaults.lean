import SettingsHarvest.Proofs.Choices
import SettingsHarvest.Proofs.Evidence
import SettingsHarvest.Proofs.Leaves
import SettingsHarvest.Proofs.Surroundings

/-! Defaults of enumerations.

The choices of a setting and the option marked as its default are found by two walks over the same
expression. Where both read options, in a list or through a callback, they read them alike: the value
of a marked option is a choice. A default that is a constant is taken as it is, and a callback that marks
nothing leaves a constant or a key behind that need not be a choice; apart from these, every enumeration
has a default among its choices (`leaf_default_mem_choices`). -/
namespace SettingsHarvest
open Syntax

namespace Project

/-! ### One option -/

theorem optionOf_value {p : Project} {b : Bindings} {object value : Site} {v : Value}
    {o : Outcome (Value × Option String)} (hvalue : object.memberValue? "value" = .ok (some value))
    (hv : p.evaluate value b = .ok (.ok v)) (h : p.optionOf b object = .ok o) :
    ∃ label, o = .ok (v, label) := by
  obtain ⟨member, hmember, h⟩ := bind_eq_ok.1 h
  cases hvalue.symm.trans hmember
  obtain ⟨outcome, houtcome, h⟩ := bind_eq_ok.1 h
  cases hv.symm.trans houtcome
  obtain ⟨label, -, h⟩ := bind_eq_ok.1 h
  cases label with
  | none => exact ⟨none, (pure_eq_ok.1 h).symm⟩
  | some labelSite =>
    obtain ⟨text, -, h⟩ := bind_eq_ok.1 h
    split at h
    · exact ⟨_, (pure_eq_ok.1 h).symm⟩
    · exact ⟨none, (pure_eq_ok.1 h).symm⟩

theorem optionValue_cases {p : Project} {object : Site} {b : Bindings} {v : Value}
    (h : p.optionValue? object b = .ok (some v)) :
    ∃ value, object.memberValue? "value" = .ok (some value) ∧ p.evaluate value b = .ok (.ok v) := by
  obtain ⟨member, hmember, h⟩ := bind_eq_ok.1 h
  cases member with
  | none => cases pure_eq_ok.1 h
  | some value =>
    obtain ⟨outcome, houtcome, h⟩ := bind_eq_ok.1 h
    cases outcome with
    | error f => cases pure_eq_ok.1 h
    | ok w =>
      cases pure_eq_ok.1 h
      exact ⟨value, hmember, houtcome⟩

/-- Both walks read the value of an option object alike. -/
theorem optionOf_optionValue {p : Project} {object : Site} {b : Bindings} {v : Value}
    {o : Outcome (Value × Option String)} (hv : p.optionValue? object b = .ok (some v))
    (h : p.optionOf b object = .ok o) : ∃ label, o = .ok (v, label) := by
  obtain ⟨value, hvalue, hv⟩ := optionValue_cases hv
  exact optionOf_value hvalue hv h

/-! ### Lists -/

theorem markedValue_cases {p : Project} {object : Site} {v : Value}
    (h : p.markedValue? object = .ok (some v)) : p.optionValue? object [] = .ok (some v) := by
  obtain ⟨marker, -, h⟩ := bind_eq_ok.1 h
  split at h
  · exact h
  · cases pure_eq_ok.1 h

/-- The list that a spread spreads. -/
def spreadList? (p : Project) (e : Site) : Attempt (Option Site) :=
  match e.spreadSource? with
  | some s => p.array? s
  | none => pure none

/-- A marked value is that of an object among the elements, or comes from a list spread in. -/
theorem markedAmong_cases {p : Project} {inside : Site → Attempt (Option Value)} {elements : List Site}
    {v : Value} (h : p.markedAmong inside elements = .ok (some v)) :
    ∃ e ∈ elements.map Site.unwrap,
      (e.hasKind .spreadElement = true ∧
        ∃ list, p.spreadList? e = .ok (some list) ∧ inside list = .ok (some v)) ∨
      (e.hasKind .spreadElement = false ∧ e.hasKind .object = true ∧
        p.optionValue? e [] = .ok (some v)) := by
  obtain ⟨e, he, h⟩ := exists_of_firstSome h
  refine ⟨e.unwrap, List.mem_map_of_mem he, ?_⟩
  dsimp only at h
  split at h
  · next hspread =>
    refine Or.inl ⟨hspread, ?_⟩
    have hlist : ∃ source, p.spreadList? e.unwrap = .ok source ∧
        (match source with
          | some list => inside list
          | none => return none) = .ok (some v) := by
      unfold spreadList?
      cases hsource : e.unwrap.spreadSource? with
      | none =>
        rw [hsource] at h
        exact ⟨none, rfl, h⟩
      | some s =>
        rw [hsource] at h
        exact bind_eq_ok.1 h
    obtain ⟨source, hsource, h⟩ := hlist
    cases source with
    | none => cases pure_eq_ok.1 h
    | some list => exact ⟨list, hsource, h⟩
  · next hspread =>
    split at h
    · next hobject =>
      exact Or.inr ⟨by simpa using hspread, hobject, markedValue_cases h⟩
    · cases h

theorem elementOption_object {p : Project} {e : Site} {v : Value} {o : Outcome (Value × Option String)}
    (hobject : e.hasKind .object = true) (hv : p.optionValue? e [] = .ok (some v))
    (h : p.elementOption e = .ok o) : ∃ label, o = .ok (v, label) := by
  rw [elementOption, if_pos hobject] at h
  exact optionOf_optionValue hv h

/-- The marked value of a list that was spread in is among the options read from it. -/
theorem mem_innerOptions {p : Project} {list : Site} {v : Value}
    {options : List (Outcome (Value × Option String))}
    (hv : p.markedAmong (fun _ => .ok none) list.named = .ok (some v))
    (h : p.innerOptions list = .ok options) : ∃ label, .ok (v, label) ∈ options := by
  obtain ⟨e, he, ⟨-, _, -, hnone⟩ | ⟨hspread, hobject, hvalue⟩⟩ := markedAmong_cases hv
  · cases hnone
  · obtain ⟨o, ho, hoption⟩ := exists_mem_of_mapM h (List.mem_filter.2 ⟨he, by simp [hspread]⟩)
    obtain ⟨label, rfl⟩ := elementOption_object hobject hvalue hoption
    exact ⟨label, ho⟩

/-- The marked value of a list is among the options read from it. -/
theorem mem_listOptions {p : Project} {list : Site} {v : Value}
    {options : List (Outcome (Value × Option String))} (hv : p.markerInList? list = .ok (some v))
    (h : p.listOptions list = .ok options) : ∃ label, .ok (v, label) ∈ options := by
  obtain ⟨groups, hgroups, h⟩ := bind_eq_ok.1 h
  cases pure_eq_ok.1 h
  obtain ⟨e, he, hmarked⟩ := markedAmong_cases hv
  obtain ⟨group, hgroup, h⟩ := exists_mem_of_mapM hgroups he
  suffices ∃ label, .ok (v, label) ∈ group by
    obtain ⟨label, hmem⟩ := this
    exact ⟨label, List.mem_flatten.2 ⟨group, hgroup, hmem⟩⟩
  rcases hmarked with ⟨hspread, inner, hinner, hvalue⟩ | ⟨hspread, hobject, hvalue⟩
  · rw [if_pos hspread] at h
    have hinside : p.innerOptions inner = .ok group := by
      unfold spreadList? at hinner
      cases hsource : e.spreadSource? with
      | none =>
        rw [hsource] at hinner
        cases pure_eq_ok.1 hinner
      | some s =>
        rw [hsource] at h hinner
        obtain ⟨source, hs, h⟩ := bind_eq_ok.1 h
        cases hinner.symm.trans hs
        exact h
    exact mem_innerOptions hvalue hinside
  · rw [if_neg (by simp [hspread])] at h
    obtain ⟨o, ho, h⟩ := bind_eq_ok.1 h
    cases pure_eq_ok.1 h
    obtain ⟨label, rfl⟩ := elementOption_object hobject hvalue ho
    exact ⟨label, List.mem_singleton_self _⟩

/-- A list with a marked value is no list of constants, so its options are its choices. -/
theorem firstChoices_marked {p : Project} {list : Site} {last : Failure} {v : Value}
    (hlist : list.hasKind .array = true) (hv : p.markerInList? list = .ok (some v)) :
    p.firstChoices list last idioms =
      (do return .ok (← Choices.collect (← p.listOptions list))) := by
  have hmixed : (list.named.any fun e =>
      e.unwrap.hasKind .object || e.unwrap.hasKind .spreadElement) = true := by
    obtain ⟨e, he, hmarked⟩ := markedAmong_cases hv
    obtain ⟨e, hmem, rfl⟩ := List.mem_map.1 he
    refine List.any_eq_true.2 ⟨e, hmem, ?_⟩
    rcases hmarked with ⟨hspread, -⟩ | ⟨-, hobject, -⟩ <;> simp [*]
  have hliteral : literalList p list = doesNotApply := by
    simp only [literalList, hlist, hmixed]
    rfl
  rw [idioms, firstChoices_skip hliteral, firstChoices, objectList, hlist]
  cases hoptions : p.listOptions list with
  | error f => rfl
  | ok options =>
    obtain ⟨label, hmem⟩ := mem_listOptions hv hoptions
    dsimp only [bind, Except.bind, Bool.not_true]
    cases hchoices : Choices.collect options with
    | error f => rfl
    | ok c =>
      have hfound := Choices.isEmpty_eq_false ((Choices.mem_collect hchoices).2 ⟨label, hmem⟩)
      dsimp only
      rw [hfound, Bool.and_false]
      rfl

theorem firstChoices_list {p : Project} {list : Site} {last : Failure} {v : Value}
    {outcome : Outcome Choices} (hlist : list.hasKind .array = true)
    (hv : p.markerInList? list = .ok (some v)) (h : p.firstChoices list last idioms = .ok outcome) :
    ∃ c, outcome = .ok c ∧ v ∈ c.values := by
  rw [firstChoices_marked hlist hv] at h
  obtain ⟨options, hoptions, h⟩ := bind_eq_ok.1 h
  obtain ⟨c, hc, h⟩ := bind_eq_ok.1 h
  exact ⟨c, (pure_eq_ok.1 h).symm, (Choices.mem_collect hc).2 (mem_listOptions hv hoptions)⟩

/-! ### Callbacks -/

/-- What a `.map` is called on, names followed. -/
def mapReceiver? (p : Project) (call : Site) : Attempt (Option Site) :=
  match call.receiver? with
  | some r => p.denoted? r
  | none => pure none

/-- What a callback is given, one element after another. -/
def callbackInputs (callback : Site) (elements : Option (List Element)) : List Bindings :=
  elementBindings (callback.parameterNames?.getD []) (elements.getD [])

/-- A callback that takes its parameter apart is given nothing. -/
theorem callbackInputs_destructured {callback : Site} {elements : Option (List Element)} {b : Bindings}
    (hparameters : callback.parameterNames? = none) (hb : b ∈ callbackInputs callback elements) :
    b = [] := by
  rw [callbackInputs, hparameters] at hb
  obtain ⟨-, -, rfl⟩ := List.mem_map.1 hb
  rfl

/-- The callback of a `.map` with the object it answers, the marker in that object, and what the
callback is given. -/
structure MarkingCallback (p : Project) (call callback body marker : Site)
    (elements : Option (List Element)) : Prop where
  calls : p.mapCallback? call = .ok (some callback)
  answers : callbackObject? callback = some body
  marks : body.memberValue? "default" = .ok (some marker)
  sees : p.mapElements call.receiver? = .ok elements

/-- A value that a callback leaves behind though it marks no option that is a choice: either it takes
its parameter apart, and its marker and its value are read without an element, or it marks none of the
elements, and the value is the constant it compares with or else the first key of the object whose keys
it is given. -/
inductive LeftBehind (p : Project) (call : Site) (v : Value) : Prop where
  | destructured {callback body marker : Site} {elements : Option (List Element)} :
    p.MarkingCallback call callback body marker elements → callback.parameterNames? = none →
      p.firstMarked? body marker [] = .ok (some v) → LeftBehind p call v
  | constant {callback body marker : Site} {elements : Option (List Element)} :
    p.MarkingCallback call callback body marker elements →
      firstSome (p.firstMarked? body marker) (callbackInputs callback elements) = .ok none →
      p.comparisonConstant? marker = .ok (some v) → LeftBehind p call v
  | key {callback body marker : Site} {elements : Option (List Element)} {receiver : Option Site} :
    p.MarkingCallback call callback body marker elements →
      firstSome (p.firstMarked? body marker) (callbackInputs callback elements) = .ok none →
      p.comparisonConstant? marker = .ok none → p.mapReceiver? call = .ok receiver →
      p.firstKey? receiver = .ok (some v) → LeftBehind p call v

theorem firstMarked_cases {p : Project} {body marker : Site} {b : Bindings} {v : Value}
    (h : p.firstMarked? body marker b = .ok (some v)) : p.optionValue? body b = .ok (some v) := by
  obtain ⟨holds, -, h⟩ := bind_eq_ok.1 h
  split at h
  · exact h
  · cases pure_eq_ok.1 h

/-- What a marker gives once a callback has gone through its elements: the value it marked, or else what
is left behind. -/
def orLeftBehind? (p : Project) (marker : Site) (receiver : Option Site) :
    Option Value → Attempt (Option Value)
  | some v => return some v
  | none => do
    match ← p.comparisonConstant? marker with
    | some v => return some v
    | none => p.firstKey? receiver

/-- What a callback marks, with the list or object its elements come from. -/
def markedBy? (p : Project) (call callback body marker : Site) (receiver : Option Site) :
    Attempt (Option Value) := do
  let elements ← p.mapElements call.receiver?
  let marked ← firstSome (p.firstMarked? body marker) (callbackInputs callback elements)
  p.orLeftBehind? marker receiver marked

theorem markedBy_cases {p : Project} {call callback body marker : Site} {receiver : Option Site}
    {v : Value} (hcallback : p.mapCallback? call = .ok (some callback))
    (hbody : callbackObject? callback = some body)
    (hmarker : body.memberValue? "default" = .ok (some marker))
    (hreceiver : p.mapReceiver? call = .ok receiver)
    (h : p.markedBy? call callback body marker receiver = .ok (some v)) : p.LeftBehind call v ∨
      ∃ elements, p.MarkingCallback call callback body marker elements ∧
        ∃ b ∈ callbackInputs callback elements, p.firstMarked? body marker b = .ok (some v) := by
  obtain ⟨elements, helements, h⟩ := bind_eq_ok.1 h
  have hmarking : p.MarkingCallback call callback body marker elements :=
    ⟨hcallback, hbody, hmarker, helements⟩
  obtain ⟨marked, hmarked, h⟩ := bind_eq_ok.1 h
  cases marked with
  | some w =>
    cases pure_eq_ok.1 h
    obtain ⟨b, hb, hvalue⟩ := exists_of_firstSome hmarked
    exact Or.inr ⟨elements, hmarking, b, hb, hvalue⟩
  | none =>
    obtain ⟨constant, hconstant, h⟩ := bind_eq_ok.1 h
    cases constant with
    | some w =>
      cases pure_eq_ok.1 h
      exact Or.inl (.constant hmarking hmarked hconstant)
    | none => exact Or.inl (.key hmarking hmarked hconstant hreceiver h)

/-- A value marked by a callback is left behind, or is that of an option the callback answers. -/
theorem markerInMap_cases {p : Project} {call : Site} {v : Value}
    (h : p.markerInMap? call = .ok (some v)) : p.LeftBehind call v ∨
      ∃ callback body marker elements, p.MarkingCallback call callback body marker elements ∧
        ∃ b ∈ callbackInputs callback elements, p.firstMarked? body marker b = .ok (some v) := by
  obtain ⟨callback, hcallback, h⟩ := bind_eq_ok.1 h
  cases callback with
  | none => cases pure_eq_ok.1 h
  | some callback =>
    dsimp only at h
    cases hbody : callbackObject? callback with
    | none =>
      rw [hbody] at h
      cases pure_eq_ok.1 h
    | some body =>
      rw [hbody] at h
      obtain ⟨marker, hmarker, h⟩ := bind_eq_ok.1 h
      cases marker with
      | none => cases pure_eq_ok.1 h
      | some marker =>
        have hmarked : ∃ receiver, p.mapReceiver? call = .ok receiver ∧
            p.markedBy? call callback body marker receiver = .ok (some v) := by
          unfold mapReceiver? markedBy?
          cases hreceiver : call.receiver? with
          | none =>
            rw [hreceiver] at h
            exact ⟨none, rfl, h⟩
          | some r =>
            rw [hreceiver] at h
            exact bind_eq_ok.1 h
        obtain ⟨receiver, hreceiver, hmarked⟩ := hmarked
        refine (markedBy_cases hcallback hbody hmarker hreceiver hmarked).imp_right ?_
        rintro ⟨elements, hmarking⟩
        exact ⟨callback, body, marker, elements, hmarking⟩

/-- The value of an option a callback answers is a choice, if the callback has plain parameters. -/
theorem firstChoices_map {p : Project} {call callback body marker : Site}
    {elements : Option (List Element)} {last : Failure} {v : Value} {b : Bindings}
    {outcome : Outcome Choices} (hmap : call.isMethodCall "map" = true)
    (hmarking : p.MarkingCallback call callback body marker elements)
    {parameters : List String} (hparameters : callback.parameterNames? = some parameters)
    (hb : b ∈ callbackInputs callback elements) (hv : p.optionValue? body b = .ok (some v))
    (h : p.firstChoices call last idioms = .ok outcome) :
    ∃ c, outcome = .ok c ∧ v ∈ c.values := by
  have hcall : call.hasKind .callExpression = true := (Bool.and_eq_true_iff.1 hmap).1
  obtain ⟨hliteral, hobjects⟩ := lists_skip hcall (p := p)
  cases elements with
  | none => simp [callbackInputs, elementBindings] at hb
  | some elements =>
    rw [idioms, firstChoices_skip hliteral, firstChoices_skip hobjects] at h
    obtain ⟨found, hfound, h⟩ := bind_eq_ok.1 h
    rw [mappedList, hmap] at hfound
    obtain ⟨elements', helements, hfound⟩ := bind_eq_ok.1 hfound
    cases hmarking.sees.symm.trans helements
    obtain ⟨callback', hcallback, hfound⟩ := bind_eq_ok.1 hfound
    cases hmarking.calls.symm.trans hcallback
    dsimp only at hfound
    rw [hparameters, hmarking.answers] at hfound
    obtain ⟨options, hoptions, hfound⟩ := bind_eq_ok.1 hfound
    rw [callbackInputs, hparameters] at hb
    obtain ⟨o, ho, hoption⟩ := exists_mem_of_mapM hoptions hb
    obtain ⟨label, rfl⟩ := optionOf_optionValue hv hoption
    obtain ⟨choices, hchoices, hfound⟩ := bind_eq_ok.1 hfound
    have hc := (Choices.mem_collect hchoices).2 ⟨label, ho⟩
    rw [Choices.isEmpty_eq_false hc, Bool.and_false] at hfound
    cases applies_eq hfound
    exact ⟨choices, (pure_eq_ok.1 h).symm, hc⟩

/-! ### Markers and choices -/

/-- The `.map` call that the options of a setting come down to. -/
def MapsOptions (p : Project) (setting call : Site) : Prop :=
  ∃ options, setting.memberValue? "options" = .ok (some options) ∧
    p.optionsExpression options = .ok call ∧ call.isMethodCall "map" = true

/-- The value of a marked option is a choice, or was left behind by a callback. -/
theorem defaultMarker_cases {p : Project} {setting : Site} {v : Value} {choices : Choices}
    (hv : p.defaultMarker? setting = .ok (some v)) (h : p.choicesOf setting = .ok choices) :
    v ∈ choices.values ∨ ∃ call, p.MapsOptions setting call ∧ p.LeftBehind call v := by
  obtain ⟨options, hoptions, hv⟩ := bind_eq_ok.1 hv
  obtain ⟨options', hoptions', h⟩ := bind_eq_ok.1 h
  cases hoptions.symm.trans hoptions'
  cases options with
  | none => cases pure_eq_ok.1 hv
  | some options =>
    obtain ⟨e, he, hv⟩ := bind_eq_ok.1 hv
    obtain ⟨outcome, houtcome, h⟩ := bind_eq_ok.1 h
    obtain ⟨e', he', houtcome⟩ := bind_eq_ok.1 houtcome
    cases he.symm.trans he'
    have hchoice (hfound : ∃ c, outcome = .ok c ∧ v ∈ c.values) : v ∈ choices.values := by
      obtain ⟨c, rfl, hc⟩ := hfound
      rwa [← pure_eq_ok.1 h]
    split at hv
    · next hlist => exact Or.inl (hchoice (firstChoices_list hlist hv houtcome))
    · split at hv
      · next hmap =>
        have hmaps : p.MapsOptions setting e := ⟨options, hoptions, he, hmap⟩
        rcases markerInMap_cases hv with hleft | ⟨callback, body, marker, elements, hmarking, b, hb, hvalue⟩
        · exact Or.inr ⟨e, hmaps, hleft⟩
        · cases hparameters : callback.parameterNames? with
          | none =>
            cases callbackInputs_destructured hparameters hb
            exact Or.inr ⟨e, hmaps, .destructured hmarking hparameters hvalue⟩
          | some parameters =>
            exact Or.inl (hchoice (firstChoices_map hmap hmarking hparameters hb (firstMarked_cases hvalue)
              houtcome))
      · cases pure_eq_ok.1 hv

/-! ### Enumerations -/

theorem promoteText_ne_enum (e : Evidence) (t : Option OptionType) : (promoteText e t).1 ≠ .enum := by
  unfold promoteText
  split
  · split <;> nofun
  · nofun

theorem attrsDefault_ne_enum {p : Project} {e : Evidence} {default : Option Value} :
    p.attrsDefault e ≠ .ok (.enum, default) := by
  intro h
  unfold attrsDefault at h
  split at h
  · cases h
  · split at h
    · obtain ⟨v, -, h⟩ := bind_eq_ok.1 h
      split at h <;> cases pure_eq_ok.1 h
    · split at h <;> cases h

/-- What an enumeration can have for a default: a literal, a marked value, or the first choice. -/
theorem resolveDefault_enum {p : Project} {setting : Site} {target : TargetType} {e : Evidence}
    {choices : Choices} {t : Option OptionType} {d : Value}
    (h : p.resolveDefault setting target e choices t = .ok (.enum, some d)) :
    e.literal = some d ∨ p.defaultMarker? setting = .ok (some d) ∨ choices.values.head? = some d := by
  unfold resolveDefault at h
  cases hliteral : e.literal with
  | some v =>
    rw [hliteral] at h
    cases h
    exact Or.inl rfl
  | none =>
    right
    rw [hliteral] at h
    dsimp only at h
    split at h
    · cases h
    · cases target with
      | enum =>
        obtain ⟨marker, hmarker, h⟩ := bind_eq_ok.1 h
        cases marker with
        | some v =>
          cases pure_eq_ok.1 h
          exact Or.inl hmarker
        | none => exact Or.inr (Prod.mk.inj (pure_eq_ok.1 h)).2
      | bool =>
        obtain ⟨marker, -, h⟩ := bind_eq_ok.1 h
        split at h <;> cases pure_eq_ok.1 h
      | str => exact absurd (congrArg Prod.fst (Except.ok.inj h)) (promoteText_ne_enum e t)
      | attrs => exact absurd h attrsDefault_ne_enum
      | listOfStr | listOfAttrs | nullableStr | int | float => cases h

end Project

/-- **Defaults of enumerations.** Every enumeration in a tree has a default and choices. The default is
one of the choices, unless it is the constant that the `default` of the setting evaluates to, or was left
behind by the callback of a `.map`. -/
theorem leaf_default_mem_choices {p : Project} {retainHidden : Bool} {object : Site}
    {entries : Entries} {path : List String} {s : Setting}
    (h : p.extract object retainHidden = .ok entries) (hleaf : Leaf entries path s)
    (henum : s.target = .enum) :
    ∃ o d values, Declares object path o ∧ s.default = some d ∧ s.choices = some values ∧
      (d ∈ values ∨ p.WritesDefault o d ∨ ∃ call, p.MapsOptions o call ∧ p.LeftBehind call d) := by
  obtain ⟨o, i, hdeclares, hreads⟩ := Project.leaf_declared h hleaf
  obtain ⟨-, hchoices, hevidence⟩ := Project.inspect_parts hreads.inspected
  obtain ⟨d, hd⟩ := Option.isSome_iff_exists.1 (hreads.chosen henum).2
  have hvalues : s.choices = some i.choices.values := by rw [hreads.choices, if_pos henum]
  have hresolved := hreads.resolved
  rw [henum, hd] at hresolved
  refine ⟨o, d, i.choices.values, hdeclares, hd, hvalues, ?_⟩
  rcases Project.resolveDefault_enum hresolved with hliteral | hmarker | hfirst
  · exact Or.inr (Or.inl ⟨i.evidence, hevidence, hliteral⟩)
  · exact (Project.defaultMarker_cases hmarker hchoices).imp_right Or.inr
  · exact Or.inl (List.mem_of_head? hfirst)

/-- An enumeration with a marked option, inside a group. -/
def markedEnumeration : Site :=
  siteOf (objectLiteral [pairLiteral "group" (objectLiteral
    [pairLiteral "theme" (objectLiteral [pairLiteral "options" (arrayLiteral
      [objectLiteral [pairLiteral "value" (textLiteral "light")],
       objectLiteral [pairLiteral "value" (textLiteral "dark"), pairLiteral "default" trueLiteral]])])])])

theorem marked_default_mem_choices :
    ∃ entries s o values, bareProject.extract markedEnumeration false = .ok entries ∧
      Leaf entries ["group", "theme"] s ∧ s.target = .enum ∧
      Declares markedEnumeration ["group", "theme"] o ∧ s.default = some (.text "dark") ∧
      s.choices = some values ∧
      (.text "dark" ∈ values ∨ bareProject.WritesDefault o (.text "dark") ∨
        ∃ call, bareProject.MapsOptions o call ∧ bareProject.LeftBehind call (.text "dark")) := by
  obtain ⟨entries, s, h, hleaf, ht, hdefault⟩ : ∃ entries s,
      bareProject.extract markedEnumeration false = .ok entries ∧ Leaf entries ["group", "theme"] s ∧
        s.target = .enum ∧ s.default = some (.text "dark") :=
    ⟨_, _, rfl, .group (List.mem_singleton_self _) (.setting (List.mem_singleton_self _)), rfl, rfl⟩
  obtain ⟨o, d, values, ho, hd, hvalues, hmem⟩ := leaf_default_mem_choices h hleaf ht
  cases hdefault.symm.trans hd
  exact ⟨entries, s, o, values, h, hleaf, ht, ho, hd, hvalues, hmem⟩

/-- An enumeration with a literal that is none of its choices. -/
def strayEnumeration : Site :=
  siteOf (objectLiteral [pairLiteral "theme" (objectLiteral
    [pairLiteral "options" (arrayLiteral [textLiteral "light", textLiteral "dark"]),
     pairLiteral "default" (textLiteral "blue")])])

theorem stray_default_not_mem_choices :
    ∃ entries s, bareProject.extract strayEnumeration false = .ok entries ∧ Leaf entries ["theme"] s ∧
      s.target = .enum ∧ s.default = some (.text "blue") ∧
      ∃ values, s.choices = some values ∧ .text "blue" ∉ values := by
  refine ⟨_, _, rfl, .setting (List.mem_singleton_self _), rfl, rfl, [.text "light", .text "dark"],
    rfl, ?_⟩
  simp

end SettingsHarvest
