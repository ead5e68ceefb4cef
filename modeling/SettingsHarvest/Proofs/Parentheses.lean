import SettingsHarvest.Proofs.RestyledSettings
import SettingsHarvest.Proofs.Wrappers

/-! Parentheses around defaults.

Where values of pairs are put in parentheses, settings show the same evidence and are extracted as the
same settings (`parenthesized_default_alike`), but for one thing: of a list with a type around it, the
checks of lists look at the type only where it is the outermost node. Parentheses around both take it
out of sight, so an empty list of objects becomes a list of texts
(`parentheses_hide_element_type`). -/
namespace SettingsHarvest
open Syntax

/-- Parentheses around values of pairs. -/
def parenthesizing : Style where
  adds k inner outer := k = .pair ∧
    ∃ r b b', outer = .tree .parenthesizedExpression r [.token none b "(", inner, .token none b' ")"]
  keeps := Node.KeepsSettings

theorem keepsSettings_parenthesizing : parenthesizing.KeepsSettings := ⟨fun _ _ h => h, fun _ _ _ h => h⟩

/-- What the checks of lists say of a default: whether it is a list of texts, one of objects, or empty
with a type. -/
def Syntax.Site.listChecks (s : Site) : Bool × Bool × Bool :=
  (s.isStringArray, s.isObjectArray, s.unwrap.hasKind .array && s.isEmptyTypedArray)

/-- A default without an asserted type is to the checks of lists what it is behind its wrappers. -/
theorem listChecks_unwrap {s : Site} (h : s.node.assertedType? = none) :
    s.listChecks = s.unwrap.listChecks := by
  unfold Site.listChecks Site.isStringArray Site.isObjectArray Site.isEmptyTypedArray
  dsimp only
  rw [Site.unwrap_unwrap]
  cases harray : s.unwrap.hasKind .array with
  | false => rfl
  | true =>
    have hnone : s.unwrap.node.assertedType? = none := by
      have hkind : s.unwrap.node.kind? = some .array := Site.hasKind_iff.1 harray
      rw [Node.assertedType?, Node.hasKind, Node.hasKind, hkind]
      rfl
    rw [h, hnone]

theorem DefaultAlike.listChecks_eq {Same : Site → Site → Prop} {init init' : Site}
    (h : DefaultAlike Same init init')
    (hkind : init.unwrap.hasKind .array = init'.unwrap.hasKind .array) :
    init.listChecks = init'.listChecks := by
  unfold Site.listChecks
  rw [h.isStringArray, h.isObjectArray, ← hkind]
  cases harray : init.unwrap.hasKind .array with
  | false => rfl
  | true => rw [h.isEmptyTypedArray harray]

/-- Around the value of a pair only assertions say something about its type. -/
theorem declaredShape_value {s : Site} (hs : s.kind? = some .pair) (part : Node) :
    (s.inside part).declaredShape? = part.assertedShape? := by
  have hparent : (s.inside part).parent? = some s := rfl
  have hpair : s.hasKind .variableDeclarator = false := by
    rw [Site.hasKind, Node.hasKind, show s.node.kind? = some .pair from hs]
    rfl
  have hnode : (s.inside part).node = part := rfl
  rw [Site.declaredShape?, hparent, hnode]
  dsimp only
  rw [hpair]
  cases part.assertedShape? <;> rfl

section Defaults

variable {σ : Style} (hσ : σ.KeepsSettings) {s s' : Site}

/-- A member that is restyled, or the value of a restyled pair. -/
inductive Site.RestyledMember (σ : Style) : Site → Site → Prop where
  | same {s s' : Site} : s.Restyled σ s' → Site.RestyledMember σ s s'
  | value {s s' : Site} {part part' : Node} : s.Restyled σ s' → s.kind? = some .pair →
    RestyledPart σ .pair part part' → Site.RestyledMember σ (s.inside part) (s'.inside part')

/-- What stands under a key, as it is read by its name. -/
theorem memberValue_restyledBy (hnames : σ.KeepsNames) (h : s.Restyled σ s')
    (hs : s.hasKind .object = true) (key : String) :
    Parallel (Option.Rel (Site.RestyledMember σ)) (s.memberValue? key) (s'.memberValue? key) := by
  have hmembers := h.named (Site.hasKind_iff.1 hs) rfl
  have hpairs : List.Forall₂ (fun pair pair' => pair.hasKind .pair = true ∧ pair.Restyled σ pair')
      (s.named.filter (·.hasKind .pair)) (s'.named.filter (·.hasKind .pair)) :=
    (List.forall₂_and_left _ _).2 ⟨fun _ hpair => (List.mem_filter.1 hpair).2,
      forall₂_filter hmembers fun _ _ hm => hm.hasKind_eq .pair⟩
  unfold Site.memberValue? Site.propertyValue?
  rw [← h.hasKind_eq]
  simp only [hs, if_true]
  refine Parallel.bind (P := Option.Rel (Site.RestyledMember σ))
    (Parallel.firstSome hpairs fun pair pair' ⟨hkind, hpair⟩ => ?_) fun v v' hv => ?_
  · rw [← hpair.memberKey_eq hnames]
    refine .same_bind _ fun k _ => ?_
    split
    · have hkind := Site.hasKind_iff.1 hkind
      exact .ok (option_rel_map (hpair.partOf hkind .value) fun _ _ hpart => .value hpair hkind hpart.2)
    · exact .ok .none
  · cases hv with
    | some hv => exact .ok (.some hv)
    | none =>
      refine .ok (option_rel_mono (forall₂_find hmembers fun m m' hm => ?_) fun _ _ hm => .same hm)
      unfold Site.isShorthand
      rw [← hm.hasKind_eq]
      cases hkind : m.hasKind .shorthandPropertyIdentifier with
      | false => rfl
      | true => rw [hm.wordText hnames (Site.hasKind_iff.1 hkind) (by decide)]

include hσ

theorem memberValue_restyled (h : s.Restyled σ s') (hs : s.hasKind .object = true) (key : String) :
    Parallel (Option.Rel (Site.RestyledMember σ)) (s.memberValue? key) (s'.memberValue? key) :=
  memberValue_restyledBy hσ.keepsSpelling.names h hs key

/-- A default that is as it was, or in parentheses now, shows the same of itself if the checks of lists
say of it what they say of the list alone. -/
theorem Site.RestyledMember.defaultAlike {init init' : Site} (h : Site.RestyledMember σ init init')
    (hlists : init.listChecks = init.unwrap.listChecks) :
    DefaultAlike (Site.Restyled σ) init init' := by
  cases h with
  | same h => exact h.defaultAlike hσ.reads
  | @value s s' part part' h hk hpart =>
    cases hpart with
    | same hsame => exact (h.inside hsame).defaultAlike hσ.reads
    | @wrapped _ _ inner _ hwrap hinner hwraps hadds =>
      have hunwrapped := h.inside_unwrap hk (.wrapped hwrap hinner hwraps hadds)
      obtain ⟨-, r, b, b', rfl⟩ := hσ.adds _ _ _ hadds
      have hkind := hunwrapped.hasKind_eq .array
      have hchecks : (s.inside part).listChecks = (s'.inside (.tree .parenthesizedExpression r
          [.token none b "(", inner, .token none b' ")"])).listChecks := by
        rw [hlists, listChecks_unwrap (s := s'.inside _) rfl]
        exact (hunwrapped.defaultAlike hσ.reads).listChecks_eq (hunwrapped.unwrap.hasKind_eq _)
      simp only [Site.listChecks, Prod.mk.injEq] at hchecks
      obtain ⟨htexts, hobjects, hempty⟩ := hchecks
      refine ⟨hunwrapped, ?_, htexts, hobjects, fun harray => ?_⟩
      · rw [declaredShape_value hk, declaredShape_value (h.kind_eq.symm.trans hk),
          Node.assertedShape_parentheses hwraps.isNamedPart, hinner.assertedShape_eq hσ.reads]
      · rwa [← hkind, harray, Bool.true_and, Bool.true_and] at hempty

omit hσ in
theorem Site.RestyledMember.rel {P : Site → Site → Prop} {x x' : Attempt (Option Site)}
    (h : Parallel (Option.Rel (Site.RestyledMember σ)) x x')
    (hP : ∀ init init', x = .ok (some init) → Site.RestyledMember σ init init' → P init init') :
    Parallel (Option.Rel P) x x' := by
  cases h with
  | fault => exact .fault
  | ok ho =>
    cases ho with
    | none => exact .ok .none
    | some hm => exact .ok (.some (hP _ _ rfl hm))

end Defaults

/-- **Parentheses around defaults.** A setting whose default was put in parentheses, or values of other
pairs in its project, shows the same evidence and is extracted as the same setting, as long as the
checks of lists say of the default what they say of the list in it. -/
theorem parenthesized_default_alike {p p' : Project} (hp : p.Restyled parenthesizing p')
    (henums : p.PlainEnums) (hlookups : p.lookups = p'.lookups)
    (hhelpers : ∀ l ∈ p.lookups, ∀ name, l.helper = .ok name → IsBraceless name)
    {s s' : Site} (h : s.Restyled parenthesizing s') (hs : s.hasKind .object = true)
    (hlists : ∀ init, s.memberValue? "default" = .ok (some init) →
      init.listChecks = init.unwrap.listChecks) :
    Parallel (Evidence.Alike (Site.Restyled parenthesizing)) (p.inspectDefault s) (p'.inspectDefault s') ∧
    ∀ name, Parallel (Outcome.Alike Eq) (p.extractSetting name s) (p'.extractSetting name s') := by
  have c := hp.settingCorrespondence keepsSettings_parenthesizing henums hlookups hhelpers
  have hdefault : Parallel (Option.Rel (DefaultAlike (Site.Restyled parenthesizing)))
      (s.memberValue? "default") (s'.memberValue? "default") :=
    Site.RestyledMember.rel (memberValue_restyled keepsSettings_parenthesizing h hs "default")
      fun init init' hinit hm => hm.defaultAlike keepsSettings_parenthesizing (hlists init hinit)
  exact ⟨c.inspectDefault h hs hdefault, fun name => c.extractSetting name h hs hdefault⟩

/-! ### A list of texts with its type -/

/-- Pairs among the parts of a node have no role. -/
def Syntax.Node.placesPairs (n : Node) : Bool :=
  n.parts.all fun part => !part.hasKind .pair || part.role?.isNone

theorem Syntax.Node.placed_of_placesPairs {n : Node} (h : n.placesPairs = true) :
    ∀ part ∈ n.parts, part.hasKind .pair = true → part.role? = none := by
  intro part hpart hpair
  have hnone := List.all_eq_true.1 h part hpart
  rw [hpair] at hnone
  simpa using hnone

/-- Two nodes that are no words and no functions, alike in what settings are read from. -/
def Syntax.Node.keepMarks (n n' : Node) : Bool :=
  n.areMarked n' && !n.kind?.any Kind.isFunction && n.placesPairs
    && decide ((n.part? .function).map Node.text = (n'.part? .function).map Node.text)
    && decide ((n.part? .type).map Node.typeShape? = (n'.part? .type).map Node.typeShape?)
    && decide (n.assertedType?.map (fun t => (t.typeShape?, t.elementShape?)) =
      n'.assertedType?.map fun t => (t.typeShape?, t.elementShape?))

theorem Syntax.Node.KeepsSettings.of_marked {n n' : Node} (h : n.keepMarks n' = true) :
    n.KeepsSettings n' := by
  simp only [Node.keepMarks, Bool.and_eq_true, Bool.not_eq_true', decide_eq_true_eq] at h
  obtain ⟨⟨⟨⟨⟨hmarked, hfunction⟩, hplaced⟩, hcallee⟩, hannotation⟩, hassertion⟩ := h
  refine ⟨.of_marked hmarked hfunction, Node.placed_of_placesPairs hplaced, ?_, hannotation, hassertion⟩
  cases hc : n.part? .function <;> cases hc' : n'.part? .function <;> rw [hc, hc'] at hcallee
  · exact .none
  · cases hcallee
  · cases hcallee
  · exact .some (.inl (Option.some.inj hcallee))

/-- A pair on the line of its object. -/
def memberPair (key : String) (value : Node) : Node :=
  .tree .pair none
    [.leaf .propertyIdentifier (some .key) " " key, .token none "" ":", value.withRole .value]

/-- The setting `{ type: OptionType.CUSTOM, default: … }`. -/
def customSetting (default : Node) : Node :=
  .tree .object none
    [.token none "" "\x7b", memberPair "type" (memberAccess " " "OptionType" "CUSTOM"),
     .token none "" ",", memberPair "default" default, .token none " " "\x7d"]

def settingProgram (default : Node) : Node := .tree .program none [probeNode (customSetting default)]

/-- A list with the type of its elements. -/
def listOf (blank : String) (elements : List Node) (type : Node) : Node :=
  asNode (.tree .array none (.token none blank "[" :: elements ++ [.token none "" "]"]))
    (.tree .arrayType none [type, .token none "" "[", .token none "" "]"])

/-- The setting in such a program. -/
def probedSetting (default : Node) : Site := probedSite (settingProgram default) (customSetting default)

/-- A node that stays as it is. -/
theorem restyled_unchanged {n : Node}
    (h : n.walk.all (fun m => m.isRegular && m.placesPairs) = true) : Restyled parenthesizing n n := by
  refine .refl n fun m hm => ?_
  obtain ⟨hregular, hplaced⟩ := Bool.and_eq_true_iff.1 (List.all_eq_true.1 h m hm)
  refine ⟨⟨⟨fun _ => rfl, fun _ => rfl, hregular⟩, fun _ _ => rfl⟩, Node.placed_of_placesPairs hplaced,
    ?_, rfl, rfl⟩
  cases m.part? .function with
  | none => exact .none
  | some c => exact .some (.inl rfl)

/-- The default with everything around it. -/
def aroundDefault (default : Node) : List Node :=
  [memberPair "default" default, customSetting default, probeArguments (customSetting default),
    probeCall (customSetting default), probeNode (customSetting default), settingProgram default]

theorem restyled_setting {default default' : Node}
    (hdefault : RestyledPart parenthesizing .pair (default.withRole .value) (default'.withRole .value))
    (hrole : (default.withRole .value).role? = (default'.withRole .value).role?)
    (hmarks : ((aroundDefault default).zip (aroundDefault default')).all
      (fun e => e.1.keepMarks e.2) = true) :
    Restyled parenthesizing (settingProgram default) (settingProgram default') ∧
      (probedSetting default).Restyled parenthesizing (probedSetting default') := by
  simp only [aroundDefault, List.zip_cons_cons, List.zip_nil_right, List.all_cons, List.all_nil,
    Bool.and_true, Bool.and_eq_true] at hmarks
  obtain ⟨hpair, hobject, harguments, hcall, hstatement, hprogram⟩ := hmarks
  have hpair : Restyled parenthesizing (memberPair "default" default) (memberPair "default" default') :=
    .tree (.leaf (.token (.cons hrole hdefault .nil))) (.of_marked hpair)
  have hobject : Restyled parenthesizing (customSetting default) (customSetting default') :=
    .tree (.token (.part (restyled_unchanged (by decide +kernel)) rfl rfl (.token (.part hpair rfl rfl
      (.token .nil))))) (.of_marked hobject)
  have harguments : Restyled parenthesizing (probeArguments (customSetting default))
      (probeArguments (customSetting default')) :=
    .tree (.token (.part hobject rfl rfl (.token .nil))) (.of_marked harguments)
  have hcall : Restyled parenthesizing (probeCall (customSetting default))
      (probeCall (customSetting default')) :=
    .tree (.leaf (.part harguments rfl rfl .nil)) (.of_marked hcall)
  have hstatement : Restyled parenthesizing (probeNode (customSetting default))
      (probeNode (customSetting default')) :=
    .tree (.part hcall rfl rfl (.token .nil)) (.of_marked hstatement)
  have hprogram : Restyled parenthesizing (settingProgram default) (settingProgram default') :=
    .tree (.part hstatement rfl rfl .nil) (.of_marked hprogram)
  exact ⟨hprogram, rfl, .cons harguments (.cons hcall (.cons hstatement (.cons hprogram .nil))), hobject⟩

/-- Parentheses with their role. -/
theorem parenthesized_part {inner inner' : Node} (h : Restyled parenthesizing (inner.withRole .value) inner')
    (hwrap : (inner.withRole .value).mayWrap .pair = true) (hnamed : inner'.isNamedPart = true) :
    RestyledPart parenthesizing .pair (inner.withRole .value)
      ((parenthesesNode " " inner').withRole .value) :=
  .wrapped hwrap h (wraps_parentheses hnamed _) ⟨rfl, _, _, _, rfl⟩

/-- The texts `["a"]`, as a list of texts. -/
def typedTexts (blank : String) : Node := listOf blank [textLiteral "a"] (typeWord "string")

theorem restyled_bareProject (σ : Style) : bareProject.Restyled σ bareProject :=
  ⟨rfl, rfl, rfl, rfl, rfl, .nil, .nil⟩

set_option maxRecDepth 4000 in
theorem parenthesized_texts_alike :
    parse .plain "\nprobe(\x7b type: OptionType.CUSTOM, default: [\"a\"] as string[] \x7d);" =
      settingProgram (typedTexts " ") ∧
    parse .plain "\nprobe(\x7b type: OptionType.CUSTOM, default: ([\"a\"] as string[]) \x7d);" =
      settingProgram (parenthesesNode " " (typedTexts "")) ∧
    ∃ s s', firstArgument? (settingProgram (typedTexts " ")) = some s ∧
      firstArgument? (settingProgram (parenthesesNode " " (typedTexts ""))) = some s' ∧
      s.Restyled parenthesizing s' ∧ bareProject.Restyled parenthesizing bareProject ∧
      bareProject.PlainEnums ∧
      (∀ l ∈ bareProject.lookups, ∀ name, l.helper = .ok name → IsBraceless name) ∧
      (∀ init, s.memberValue? "default" = .ok (some init) → init.listChecks = init.unwrap.listChecks) ∧
      (bareProject.inspectDefault s').toOption.map (·.stringArray) = some true ∧
      Parallel (Evidence.Alike (Site.Restyled parenthesizing)) (bareProject.inspectDefault s)
        (bareProject.inspectDefault s') ∧
      ∀ name, Parallel (Outcome.Alike Eq) (bareProject.extractSetting name s)
        (bareProject.extractSetting name s') := by
  have hinner : Restyled parenthesizing ((typedTexts " ").withRole .value) (typedTexts "") :=
    .tree (.part (.tree (.token (.leaf (.token .nil))) (.of_marked (by decide +kernel))) rfl rfl
      (.token (.part (restyled_unchanged (by decide +kernel)) rfl rfl .nil)))
      (.of_marked (by decide +kernel))
  obtain ⟨-, hsite⟩ := restyled_setting (parenthesized_part hinner rfl rfl) rfl (by decide +kernel)
  have henums : bareProject.PlainEnums := by
    unfold Project.PlainEnums
    decide +kernel
  have hlists : ∀ init, (probedSetting (typedTexts " ")).memberValue? "default" = .ok (some init) →
      init.listChecks = init.unwrap.listChecks := by
    intro init hinit
    cases hinit
    decide +kernel
  have hhelpers : ∀ l ∈ bareProject.lookups, ∀ name, l.helper = .ok name → IsBraceless name :=
    fun l hl => absurd hl List.not_mem_nil
  have halike := parenthesized_default_alike (restyled_bareProject _) henums rfl hhelpers hsite rfl hlists
  have hshown : (bareProject.inspectDefault (probedSetting (parenthesesNode " " (typedTexts "")))).toOption.map
      (·.stringArray) = some true := by decide +kernel
  have hfound : firstArgument? (settingProgram (typedTexts " ")) = some (probedSetting (typedTexts " ")) :=
    rfl
  have hfound' : firstArgument? (settingProgram (parenthesesNode " " (typedTexts ""))) =
      some (probedSetting (parenthesesNode " " (typedTexts ""))) := rfl
  refine ⟨by decide +kernel, by decide +kernel, ?_⟩
  exact ⟨_, _, hfound, hfound', hsite, restyled_bareProject _, henums, hhelpers, hlists, hshown, halike⟩

/-! ### An empty list of objects -/

/-- An empty list with a type. -/
def typedEmpty (blank : String) : Node := listOf blank [] (.leaf .typeIdentifier none " " "Foo")

/-- The type that a setting is extracted with. -/
def targetOf (extracted : Attempt (Outcome Setting)) : Option TargetType :=
  extracted.toOption.bind fun o => (Project.valueOf? o).map Setting.target

set_option maxRecDepth 4000 in
theorem parentheses_hide_element_type :
    parse .plain "\nprobe(\x7b type: OptionType.CUSTOM, default: [] as Foo[] \x7d);" =
      settingProgram (typedEmpty " ") ∧
    parse .plain "\nprobe(\x7b type: OptionType.CUSTOM, default: ([] as Foo[]) \x7d);" =
      settingProgram (parenthesesNode " " (typedEmpty "")) ∧
    Restyled parenthesizing (settingProgram (typedEmpty " "))
      (settingProgram (parenthesesNode " " (typedEmpty ""))) ∧
    ∃ s s', firstArgument? (settingProgram (typedEmpty " ")) = some s ∧
      firstArgument? (settingProgram (parenthesesNode " " (typedEmpty ""))) = some s' ∧
      (bareProject.inspectDefault s).toOption.map (·.emptyTypedArray) = some true ∧
      (bareProject.inspectDefault s').toOption.map (·.emptyTypedArray) = some false ∧
      targetOf (bareProject.extractSetting "a" s) = some .listOfAttrs ∧
      targetOf (bareProject.extractSetting "a" s') = some .listOfStr := by
  have hinner : Restyled parenthesizing ((typedEmpty " ").withRole .value) (typedEmpty "") :=
    .tree (.part (.tree (.token (.token .nil)) (.of_marked (by decide +kernel))) rfl rfl
      (.token (.part (restyled_unchanged (by decide +kernel)) rfl rfl .nil)))
      (.of_marked (by decide +kernel))
  obtain ⟨hprogram, -⟩ := restyled_setting (parenthesized_part hinner rfl rfl) rfl (by decide +kernel)
  exact ⟨by decide +kernel, by decide +kernel, hprogram, probedSetting _, probedSetting _, rfl, rfl,
    by decide +kernel, by decide +kernel, by decide +kernel, by decide +kernel⟩

end SettingsHarvest
