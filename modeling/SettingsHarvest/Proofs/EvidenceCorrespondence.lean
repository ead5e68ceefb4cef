import SettingsHarvest.Extraction
import SettingsHarvest.Proofs.ChoiceCorrespondence

/-! Evidence of corresponding settings.

The sort of a setting and the evidence of its default are found alike in corresponding places. Of the
default itself more has to be alike than what it denotes: the types around it, and what the checks of
lists read off its outermost node (`DefaultAlike`). -/
namespace SettingsHarvest
open Syntax Project

/-- Whether a default is an empty list with a type of its elements around it. -/
def Syntax.Site.isEmptyTypedArray (s : Site) : Bool :=
  (s.node.assertedType?.bind Node.elementShape?).isSome && s.unwrap.named.isEmpty

/-- A name other than `undefined`. -/
def Syntax.Site.isName (s : Site) : Bool := s.hasKind .identifier && !s.isNull

namespace Project

/-- Whether a default is a name that something is known of. -/
def isDeclaredName (p : Project) (s : Site) : Attempt Bool :=
  if s.isName then do return (← p.declaration? s).isSome || (initializerBySpelling? s).isSome
  else .ok false

/-- Whether a default is a name for a list. -/
def isListName (p : Project) (s : Site) : Attempt Bool :=
  if s.isName then do return (← p.denoted? s).any (·.hasKind .array) else .ok false

/-- The types around a default are asked where it is no constant. -/
def shapeUnlessConstant (p : Project) (literal : Option Value) (init : Site) :
    Attempt (Option TypeShape) :=
  if literal.isNone then p.declaredShapeOf init else .ok none

/-- The sort that the value of an expression is the number of. -/
def sortOfValue (p : Project) (s : Site) : Attempt (Outcome (Option OptionType)) := do
  match ← p.evaluate s [] with
  | .ok v => match OptionType.ofValue? v with
    | some t => return .ok (some t)
    | none => return .error (.unknownOptionType (← v.writable))
  | .error _ => return .error (.unresolvedOptionType s.text)

/-- The sort that an expression tells, by the member it names or by its value. -/
def sortAt (p : Project) (s : Site) : Attempt (Outcome (Option OptionType)) := do
  let named ← if s.hasKind .memberExpression then p.memberOptionType? s else pure none
  match named with
  | some t => return .ok (some t)
  | none => p.sortOfValue s

theorem optionTypeOf_eq (p : Project) (setting : Site) :
    p.optionTypeOf setting = (do
      match (← setting.memberValue? "type").map Site.unwrap with
      | none => return .ok none
      | some s => p.sortAt s) := rfl

theorem inspectInitializer_eq (p : Project) (init : Site) :
    p.inspectInitializer init = (do
      let literal ← p.scalarLiteral? init
      let declared ← p.isDeclaredName init.unwrap
      let isArray ← p.isListName init.unwrap
      let shape ← p.shapeOf init literal
      let stringArray ← p.isStringArrayDefault init
      let objectArray ← p.isObjectArrayDefault init
      let emptyTypedArray ← p.isEmptyTypedArrayDefault init
      let declaredShape ← p.shapeUnlessConstant literal init
      return ⟨some init, literal, shape, stringArray, objectArray, emptyTypedArray,
        init.unwrap.isName, declared, isArray, false, declaredShape⟩) := by
  unfold inspectInitializer isDeclaredName isListName shapeUnlessConstant Site.isName
  refine bind_congr fun literal => ?_
  dsimp only
  cases init.unwrap.hasKind .identifier && !init.unwrap.isNull with
  | false => cases literal <;> rfl
  | true =>
    simp only [if_true, bind_assoc, pure_bind]
    cases literal <;> rfl

end Project

theorem sortOfValue_alike {p p' : Project} {s s' : Site}
    (h : Parallel (Outcome.Alike Eq) (p.evaluate s []) (p'.evaluate s' [])) :
    Parallel (Outcome.Alike Eq) (p.sortOfValue s) (p'.sortOfValue s') := by
  unfold Project.sortOfValue
  refine h.bind fun o o' ho => ?_
  cases ho with
  | failure => exact .ok (.failure rfl)
  | value heq =>
    rw [← heq]
    dsimp only
    split
    · exact .ok (.value rfl)
    · exact .same_bind _ fun v _ => .ok (.failure rfl)

theorem optionTypeOf_alike {p p' : Project} {s s' : Site}
    (h : Parallel
      (Option.Rel fun v v' => Parallel (Outcome.Alike Eq) (p.sortAt v.unwrap) (p'.sortAt v'.unwrap))
      (s.memberValue? "type") (s'.memberValue? "type")) :
    Parallel (Outcome.Alike Eq) (p.optionTypeOf s) (p'.optionTypeOf s') := by
  rw [optionTypeOf_eq, optionTypeOf_eq]
  refine h.bind fun v v' hv => ?_
  cases hv with
  | none => exact .ok (.value rfl)
  | some hv => exact hv

/-- Defaults that denote corresponding expressions and show the same of themselves. -/
structure DefaultAlike (Same : Site → Site → Prop) (init init' : Site) : Prop where
  unwrapped : Unwrapped Same init init'
  declaredShape : init.declaredShape? = init'.declaredShape?
  isStringArray : init.isStringArray = init'.isStringArray
  isObjectArray : init.isObjectArray = init'.isObjectArray
  isEmptyTypedArray : init.unwrap.hasKind .array = true →
    init.isEmptyTypedArray = init'.isEmptyTypedArray

/-- Evidence of corresponding defaults, the same but for where they are. -/
structure Evidence.Alike (Same : Site → Site → Prop) (e e' : Evidence) : Prop where
  initializer : Option.Rel (Unwrapped Same) e.initializer e'.initializer
  rest : { e with initializer := none } = { e' with initializer := none }

namespace SettingCorrespondence

variable {p p' : Project} {Same Init : Site → Site → Prop} (c : SettingCorrespondence p p' Same Init)
  {s s' init init' : Site}

include c

/-! ### Sorts -/

theorem memberOptionType (h : Same s s') (hs : s.hasKind .memberExpression = true) :
    Parallel Eq (p.memberOptionType? s) (p'.memberOptionType? s') := by
  unfold Project.memberOptionType?
  rcases option_rel_cases (c.accessParts h hs) with
    ⟨ha, ha'⟩ | ⟨⟨base, member⟩, ⟨base', _⟩, ha, ha', hbase, rfl⟩
  · rw [ha, ha']
    exact .ok rfl
  · rw [ha, ha']
    dsimp only at hbase ⊢
    rw [← c.hasKind hbase]
    split
    · next hname =>
      refine (c.declaration hbase (Site.isNameUse_of_identifier hname)).bind fun d d' hd => ?_
      cases hd with
      | none => exact .ok rfl
      | some hd =>
        rename_i d d'
        obtain ⟨name, site, binding⟩ := d
        obtain ⟨name', site', binding'⟩ := d'
        obtain ⟨-, -, hbinding, hmembers⟩ := hd
        cases hbinding with
        | initialized => exact .ok rfl
        | same =>
          cases binding
          case enumeration =>
            dsimp only
            rw [Project.enumMembers, Project.enumMembers,
              Correspondence.enumMembers (c.evaluateWithin _) (hmembers rfl)]
            exact .same_bind _ fun members _ => .ok rfl
          all_goals exact .ok rfl
    · exact .ok rfl

theorem sortAt (h : Same s s') : Parallel (Outcome.Alike Eq) (p.sortAt s) (p'.sortAt s') := by
  unfold Project.sortAt
  rw [← c.hasKind h]
  refine Parallel.ite_bind (c.memberOptionType h) (fun _ => .ok rfl) fun named _ heq => heq ▸ ?_
  cases named with
  | some t => exact .ok (.value rfl)
  | none => exact sortOfValue_alike (c.evaluate (c.unwrapped h) .nil)

theorem optionTypeOf (h : SettingsAlike Same s s') :
    Parallel (Outcome.Alike Eq) (p.optionTypeOf s) (p'.optionTypeOf s') :=
  optionTypeOf_alike ((h "type" (by decide)).mono fun _ _ ho => option_rel_mono ho fun _ _ => c.sortAt)

/-! ### Shapes -/

theorem isRenderer (h : Same s s') : s.isRenderer = s'.isRenderer := by
  rw [Site.isRenderer, Site.isRenderer, c.isFunction h, c.hasKind h, c.hasKind h, c.hasKind h]

theorem isStructural (h : Same s s') : s.isStructural = s'.isStructural := by
  unfold Site.isStructural
  rw [c.isRenderer h, c.hasKind h, c.hasKind h, c.hasKind h, c.hasKind h, c.hasKind h]

theorem isNull (h : Unwrapped Same s s') : s.isNull = s'.isNull := by
  unfold Site.isNull
  dsimp only
  rw [← c.hasKind h, ← c.hasKind h, ← c.hasKind h]
  cases hname : s.unwrap.hasKind .identifier with
  | false => rw [Bool.false_and, Bool.false_and]
  | true => rw [c.nameText h (Site.isNameUse_of_identifier hname)]

theorem calledFunction (h : Same s s') :
    Parallel (Option.Rel Same) (p.calledFunction? s) (p'.calledFunction? s') := by
  unfold Project.calledFunction?
  rcases option_rel_cases (c.partOf h .function) with ⟨hf, hf'⟩ | ⟨f, f', hf, hf', hcallee⟩
  · rw [Site.callee?, Site.callee?, hf, hf']
    exact .ok .none
  · rw [Site.callee?, Site.callee?, hf, hf']
    dsimp only [Option.map_some]
    rw [← c.hasKind hcallee]
    split
    · next hname =>
      refine (c.initializer hcallee (Site.isNameUse_of_identifier hname)).bind fun v v' hv => .ok ?_
      exact option_rel_filter (option_rel_map hv fun _ _ => c.initial) fun _ _ => c.isFunction
    · exact .ok .none

theorem calledBody (h : Same s s') :
    Parallel (Option.Rel Same) (p.calledBody? s) (p'.calledBody? s') := by
  unfold Project.calledBody?
  refine (c.calledFunction h).bind fun f f' hf => .ok ?_
  cases hf with
  | none => exact .none
  | some hf => exact option_rel_map (c.body hf) fun _ _ hbody => hbody

theorem callShape (h : Same s s') : Parallel Eq (p.callShape? s) (p'.callShape? s') := by
  have hbuiltin : (s.callee?.bind fun c => builtinShape? c.text) =
      s'.callee?.bind fun c => builtinShape? c.text := c.builtin h
  unfold Project.callShape?
  rw [← hbuiltin]
  refine (c.calledBody h).bind fun body body' hbody => ?_
  cases hbody with
  | none => exact .ok rfl
  | some hbody => exact .ok (by rw [c.hasKind hbody, c.hasKind hbody])

theorem denotedShape (h : Same s s') : Parallel Eq (p.denotedShape s) (p'.denotedShape s') := by
  unfold Project.denotedShape
  refine (c.denoted (c.unwrapped h)).bind fun found found' hfound => ?_
  cases hfound with
  | none => exact .ok rfl
  | some hfound =>
    dsimp only
    rw [← c.hasKind hfound, ← c.hasKind hfound, ← c.hasKind hfound, ← c.isRenderer hfound]
    split
    · exact (c.callShape hfound).bind fun shape _ hshape => hshape ▸ .ok rfl
    · exact .refl _

theorem scalarLiteral (h : Unwrapped Same init init') :
    Parallel Eq (p.scalarLiteral? init) (p'.scalarLiteral? init') := by
  unfold Project.scalarLiteral?
  rw [← c.isStructural h, ← c.isNull h]
  split
  · exact .ok rfl
  · refine (c.evaluate h .nil).bind fun o o' ho => .ok ?_
    cases ho with
    | value heq => rw [heq]
    | failure => rfl

theorem shapeOf (h : Unwrapped Same init init') (literal : Option Value) :
    Parallel Eq (p.shapeOf init literal) (p'.shapeOf init' literal) := by
  have hargument : (init.unwrap.firstArgument?.map Site.unwrap).any (·.hasKind .object) =
      (init'.unwrap.firstArgument?.map Site.unwrap).any (·.hasKind .object) := by
    rcases option_rel_cases (c.firstArgument h) with ⟨ha, ha'⟩ | ⟨a, a', ha, ha', hsame⟩ <;>
      rw [ha, ha']
    exact c.hasKind hsame _
  unfold Project.shapeOf
  dsimp only
  rw [← c.isNull h, ← c.hasKind h, ← c.hasKind h, ← c.hasKind h, ← c.hasKind h, ← c.hasKind h,
    ← c.isRenderer h, ← hargument]
  refine .ite (fun _ => .ok rfl) fun _ => .ite (fun _ => .ok rfl) fun _ => ?_
  refine .ite (fun _ => .ok rfl) fun _ => .ite (fun _ => .ok rfl) fun _ => ?_
  refine .ite (fun _ => .ok rfl) fun _ => .ite (fun _ => ?call) fun _ => ?_
  case call =>
    refine .ite (fun _ => .ok rfl) fun _ => ?_
    exact (c.callShape h).bind fun shape _ hshape => hshape ▸ .ok rfl
  exact .ite (fun _ => c.denotedShape h) fun _ => .ok rfl

/-! ### Lists -/

theorem isStringArrayDefault (h : DefaultAlike Same init init') :
    Parallel Eq (p.isStringArrayDefault init) (p'.isStringArrayDefault init') := by
  unfold Project.isStringArrayDefault
  rw [← c.hasKind h.unwrapped, ← h.isStringArray]
  split
  · next hname =>
    refine (c.initializer h.unwrapped (Site.isNameUse_of_identifier hname)).bind
      fun v v' hv => .ok ?_
    cases hv with
    | none => rfl
    | some hv => exact c.isStringArray hv
  · exact .ok rfl

theorem isObjectArrayDefault (h : DefaultAlike Same init init') :
    Parallel Eq (p.isObjectArrayDefault init) (p'.isObjectArrayDefault init') := by
  have hany {o o' : Option Site} (ho : Option.Rel Init o o') :
      o.any Site.isObjectArray = o'.any Site.isObjectArray := by
    cases ho with
    | none => rfl
    | some hv => exact c.isObjectArray hv
  unfold Project.isObjectArrayDefault
  dsimp only
  rw [← c.hasKind h.unwrapped, ← c.hasKind h.unwrapped, ← c.hasKind h.unwrapped, ← h.isObjectArray]
  split
  · exact .ok rfl
  · split
    · refine (c.calledBody h.unwrapped).bind fun o o' ho => .ok ?_
      exact hany (option_rel_mono ho fun _ _ => c.same)
    · split
      · next hname =>
        refine (c.initializer h.unwrapped (Site.isNameUse_of_identifier hname)).bind
          fun o o' ho => .ok (hany ho)
      · exact .ok rfl

theorem isEmptyTypedArrayDefault (h : DefaultAlike Same init init') :
    Parallel Eq (p.isEmptyTypedArrayDefault init) (p'.isEmptyTypedArrayDefault init') := by
  unfold Project.isEmptyTypedArrayDefault
  dsimp only
  rw [← c.hasKind h.unwrapped, ← c.hasKind h.unwrapped]
  split
  · next hlist => exact .ok (h.isEmptyTypedArray hlist)
  · split
    · refine (c.calledBody h.unwrapped).bind fun o o' ho => .ok ?_
      cases ho with
      | none => rfl
      | some hbody =>
        simp only [Option.any_some]
        rw [← c.hasKind hbody]
        congr 1
        exact forall₂_all (c.parts hbody) fun e e' he => by rw [c.hasKind he, c.hasKind he]
    · exact .ok rfl

theorem declaredShapeOf (h : DefaultAlike Same init init') :
    Parallel Eq (p.declaredShapeOf init) (p'.declaredShapeOf init') := by
  unfold Project.declaredShapeOf
  rw [← h.declaredShape]
  split
  · exact .ok rfl
  · rw [← c.hasKind h.unwrapped]
    split
    · next hname =>
      refine (c.declaration h.unwrapped (Site.isNameUse_of_identifier hname)).bind fun d d' hd => ?_
      cases hd with
      | none => exact .ok rfl
      | some hd =>
        rename_i d d'
        obtain ⟨name, site, binding⟩ := d
        obtain ⟨name', site', binding'⟩ := d'
        obtain ⟨-, hsite, hbinding, -⟩ := hd
        cases hbinding with
        | initialized hv =>
          have htype := c.typeShape hsite
          dsimp only at htype ⊢
          cases ht : site.node.part? .type <;> cases ht' : site'.node.part? .type <;>
            rw [ht, ht'] at htype
          · refine .ok ?_
            cases hv with
            | none => rfl
            | some hv => exact c.declaredShape hv
          · cases htype
          · cases htype
          · exact .ok (Option.some.inj htype)
        | same _ hnot =>
          cases binding
          case «variable» v => exact absurd rfl (hnot v)
          all_goals exact .ok rfl
    · exact .ok rfl

/-! ### Observations -/

theorem isName (h : Same s s') : s.isName = s'.isName := by
  rw [Site.isName, Site.isName, c.hasKind h, c.isNull (c.unwrapped h)]

theorem isDeclaredName (h : Same s s') : Parallel Eq (p.isDeclaredName s) (p'.isDeclaredName s') := by
  unfold Project.isDeclaredName
  rw [← c.isName h]
  split
  · next hname =>
    have huse := Site.isNameUse_of_identifier (Bool.and_eq_true_iff.1 hname).1
    refine (c.declaration h huse).bind fun d d' hd => .ok ?_
    rw [option_rel_isSome hd, option_rel_isSome (c.spelled h huse)]
  · exact .ok rfl

theorem isListName (h : Same s s') : Parallel Eq (p.isListName s) (p'.isListName s') := by
  unfold Project.isListName
  rw [← c.isName h]
  split
  · refine (c.denoted (c.unwrapped h)).bind fun o o' ho => .ok ?_
    cases ho with
    | none => rfl
    | some ho => exact c.hasKind ho _
  · exact .ok rfl

theorem shapeUnlessConstant (literal : Option Value) (h : DefaultAlike Same init init') :
    Parallel Eq (p.shapeUnlessConstant literal init) (p'.shapeUnlessConstant literal init') := by
  unfold Project.shapeUnlessConstant
  split
  · exact c.declaredShapeOf h
  · exact .ok rfl

theorem inspectInitializer (h : DefaultAlike Same init init') :
    Parallel (Evidence.Alike Same) (p.inspectInitializer init) (p'.inspectInitializer init') := by
  have hunwrapped : Same init.unwrap init'.unwrap := h.unwrapped
  rw [inspectInitializer_eq, inspectInitializer_eq]
  refine (c.scalarLiteral h.unwrapped).bind fun literal _ heq => heq ▸ ?_
  refine (c.isDeclaredName hunwrapped).bind fun declared _ heq => heq ▸ ?_
  refine (c.isListName hunwrapped).bind fun isArray _ heq => heq ▸ ?_
  refine (c.shapeOf h.unwrapped literal).bind fun shape _ heq => heq ▸ ?_
  refine (c.isStringArrayDefault h).bind fun stringArray _ heq => heq ▸ ?_
  refine (c.isObjectArrayDefault h).bind fun objectArray _ heq => heq ▸ ?_
  refine (c.isEmptyTypedArrayDefault h).bind fun emptyTypedArray _ heq => heq ▸ ?_
  refine (c.shapeUnlessConstant literal h).bind fun declaredShape _ heq => heq ▸ .ok ?_
  exact ⟨.some h.unwrapped, by rw [c.isName hunwrapped]⟩

theorem getter (h : Same s s') (hs : s.hasKind .object = true) (key : String) :
    Parallel (Option.Rel Same) (s.getter? key) (s'.getter? key) := by
  rw [Site.getter?, Site.getter?, ← c.hasKind h, if_pos hs, if_pos hs]
  refine Parallel.firstSome (c.members h hs) fun m m' hm => ?_
  rw [← c.isGetter hm, ← c.memberKey hm]
  split
  · refine .same_bind _ fun k _ => ?_
    split
    · exact .ok (.some hm)
    · exact .ok .none
  · exact .ok .none

/-- Settings with accessors that are found alike, and defaults that are alike, show the same evidence. -/
theorem evidenceOf (hgetter : Parallel (Option.Rel Same) (s.getter? "default") (s'.getter? "default"))
    (hdefault : Parallel (Option.Rel (DefaultAlike Same)) (s.memberValue? "default")
      (s'.memberValue? "default")) :
    Parallel (Evidence.Alike Same) (p.inspectDefault s) (p'.inspectDefault s') := by
  unfold Project.inspectDefault
  refine hgetter.bind fun getter getter' hgetter => ?_
  rw [← option_rel_isSome hgetter]
  split
  · exact .ok ⟨.none, rfl⟩
  · refine hdefault.bind fun init init' hinit => ?_
    cases hinit with
    | none => exact .ok ⟨.none, rfl⟩
    | some hinit => exact c.inspectInitializer hinit

/-- **Evidence.** Settings with defaults that are alike show the same evidence. -/
theorem inspectDefault (h : Same s s') (hs : s.hasKind .object = true)
    (hdefault : Parallel (Option.Rel (DefaultAlike Same)) (s.memberValue? "default")
      (s'.memberValue? "default")) :
    Parallel (Evidence.Alike Same) (p.inspectDefault s) (p'.inspectDefault s') :=
  c.evidenceOf (c.getter h hs "default") hdefault

end SettingCorrespondence
end SettingsHarvest
