import SettingsHarvest.Proofs.Correspondence
import SettingsHarvest.Proofs.EnumDefaults

/-! Choices of corresponding settings.

What a setting is read from takes more than evaluation does: lists and what is spread into them, calls
with their methods and arguments, functions with their parameters and bodies, and the types around
initializers. A `SettingCorrespondence` answers these alike as well. Then each idiom applies to
corresponding expressions alike, and offers the same choices (`SettingCorrespondence.matchOptions`). -/
namespace SettingsHarvest
open Syntax Project

namespace Syntax.Site

/-- What a name stands for at the top of the file that a site is in. -/
def topValue? (s : Site) (name : String) : Attempt (Option Site) := do
  return ((← s.program.declarations).lookup? name).bind Declaration.value?

/-- The shape of what a call answers, as far as its text tells. -/
def builtinAnswer? (call : Site) : Option SettingsHarvest.Shape :=
  call.callee?.bind fun c => builtinShape? c.text

end Syntax.Site

namespace Project

/-- What `.map` is called on, followed through names. -/
def mapSource? (p : Project) (receiver : Option Site) : Attempt (Option Site) :=
  match receiver.map Site.unwrap with
  | some s =>
    if s.hasKind .identifier || s.hasKind .memberExpression then p.denoted? s else .ok (some s)
  | none => .ok none

/-- The elements of a list, or the keys or values that `Object` lists. -/
def elementsOf? (p : Project) (s : Site) : Attempt (Option (List Element)) :=
  if s.hasKind .array then p.spreadElements s.named
  else if s.isMethodCallOn "Object" "keys" || s.isMethodCallOn "Object" "values" then do
    let object ← match s.firstArgument? with
      | some a => p.object? a
      | none => pure none
    match object with
    | none => return none
    | some o =>
      let pairs ← o.pairs
      if s.isMethodCallOn "Object" "keys" then return some (pairs.map (.key ·.1))
      else return some (pairs.filterMap fun e => e.2.pairValue?.map .site)
  else return none

theorem mapElements_eq (p : Project) (receiver : Option Site) :
    p.mapElements receiver = (do
      match ← p.mapSource? receiver with
      | none => return none
      | some s => p.elementsOf? s) := by
  unfold mapElements mapSource?
  cases receiver.map Site.unwrap with
  | none => rfl
  | some s =>
    dsimp only
    split <;> rfl

/-- The options of an element of a list: itself, or those of the list that it spreads. -/
def optionsAt (p : Project) (e : Site) : Attempt (List (Outcome (Value × Option String))) :=
  if e.hasKind .spreadElement then do
    let source ← match e.spreadSource? with
      | some s => p.array? s
      | none => pure none
    match source with
    | none => return [.error (.unresolvedSpread e.text)]
    | some inner => p.innerOptions inner
  else do return [← p.elementOption e]

theorem listOptions_eq (p : Project) (list : Site) :
    p.listOptions list = (do return (← (list.named.map Site.unwrap).mapM p.optionsAt).flatten) := rfl

/-- The table that the callback of a `.map` call reads from. -/
def callbackTable? (p : Project) (call : Site) : Attempt (Option Site) := do
  match ← p.mapCallback? call with
  | some callback => indexedTable? callback
  | none => return none

theorem tableExpression_eq (p : Project) (call : Site) :
    p.tableExpression? call = (do
      match ← p.callbackTable? call with
      | some t => return some t
      | none =>
        let receiver ← p.mapReceiver? call
        return (receiver.filter (·.isMethodCallOn "Object" "keys")).bind (·.firstArgument?)) := by
  unfold tableExpression? callbackTable? mapReceiver?
  cases p.mapCallback? call with
  | error f => rfl
  | ok callback => cases callback <;> cases call.receiver? <;> rfl

end Project

/-- A correspondence under which everything else that settings are read from is answered alike. -/
structure SettingCorrespondence (p p' : Project) (Same Init : Site → Site → Prop) : Prop
    extends Correspondence p p' Same Init where
  lookups : p.lookups = p'.lookups
  partOf {s s' : Site} : Same s s' → ∀ r, Option.Rel (Unwrapped Same) (s.part? r) (s'.part? r)
  parts {s s' : Site} : Same s s' → List.Forall₂ (Unwrapped Same) s.named s'.named
  memberKey {s s' : Site} : Same s s' → s.memberKey? = s'.memberKey?
  isGetter {s s' : Site} : Same s s' → s.isGetter = s'.isGetter
  /-- The elements of a list that are spreads. -/
  spreads {s s' : Site} : Same s s' → s.hasKind .array = true →
    List.Forall₂ (fun e e' => e.hasKind .spreadElement = e'.hasKind .spreadElement) s.named s'.named
  arguments {s s' : Site} : Same s s' →
    List.Forall₂ (Unwrapped Same) s.callArguments s'.callArguments
  method {s s' : Site} : Same s s' → ∀ name, s.isMethodCall name = s'.isMethodCall name
  methodOn {s s' : Site} : Same s s' → ∀ receiver name,
    s.isMethodCallOn receiver name = s'.isMethodCallOn receiver name
  receiver {s s' : Site} : Same s s' → Option.Rel (Unwrapped Same) s.receiver? s'.receiver?
  builtin {s s' : Site} : Same s s' → s.builtinAnswer? = s'.builtinAnswer?
  helper {s s' : Site} : Same s s' → ∀ l ∈ p.lookups, ∀ name, l.helper = .ok name →
    (s.callee?.map Site.text != some name) = (s'.callee?.map Site.text != some name)
  parameterNames {s s' : Site} : Same s s' → s.parameterNames? = s'.parameterNames?
  body {s s' : Site} : Same s s' → Option.Rel (Unwrapped Same) s.bodyExpression? s'.bodyExpression?
  topValue {s s' : Site} : Same s s' → ∀ name,
    Parallel (Option.Rel Init) (s.topValue? name) (s'.topValue? name)
  typeShape {s s' : Site} : Same s s' →
    (s.node.part? .type).map Node.typeShape? = (s'.node.part? .type).map Node.typeShape?
  declaredShape {s s' : Site} : Init s s' → s.declaredShape? = s'.declaredShape?
  isStringArray {s s' : Site} : Init s s' → s.isStringArray = s'.isStringArray
  isObjectArray {s s' : Site} : Init s s' → s.isObjectArray = s'.isObjectArray

/-- Object literals with corresponding members, under all keys but that of defaults. -/
def SettingsAlike (Same : Site → Site → Prop) (s s' : Site) : Prop :=
  ∀ key, key ≠ "default" → Parallel (Option.Rel (Unwrapped Same)) (s.memberValue? key) (s'.memberValue? key)

/-- Elements that a callback is given, one of them in its place or a key. -/
inductive Element.Alike (Same : Site → Site → Prop) : Element → Element → Prop where
  | key (k : String) : Element.Alike Same (.key k) (.key k)
  | site {s s' : Site} : Unwrapped Same s s' → Element.Alike Same (.site s) (.site s')

theorem Element.Alike.bound {Same : Site → Site → Prop} {e e' : Element} (h : Element.Alike Same e e') :
    Bound.Alike Same e.bound e'.bound := by
  cases h with
  | key k => exact .value _
  | site hs => exact .expression hs

/-- Collecting options looks at those that could be read. -/
theorem collect_alike {options options' : List (Outcome (Value × Option String))}
    (h : List.Forall₂ (Outcome.Alike Eq) options options') :
    Choices.collect options = Choices.collect options' := by
  refine (Parallel.foldlM h rfl fun c c' o o' hc ho => ?_).eq
  rw [hc]
  cases ho with
  | value hv => exact .of_eq (congrArg c'.add hv)
  | failure => exact .refl _

/-- Outcomes that are alike have the same values among them. -/
theorem values_alike {outcomes outcomes' : List (Outcome Value)}
    (h : List.Forall₂ (Outcome.Alike Eq) outcomes outcomes') :
    outcomes.filterMap valueOf? = outcomes'.filterMap valueOf? := by
  induction h with
  | nil => rfl
  | cons ho _ ih =>
    cases ho with
    | value heq => rw [heq, List.filterMap_cons, List.filterMap_cons, ih]
    | failure => exact ih

/-- Outcomes that are alike fail for reasons of the same kinds. -/
theorem failures_alike {α : Type} {outcomes outcomes' : List (Outcome α)} (kind : FailureKind)
    (h : List.Forall₂ (Outcome.Alike Eq) outcomes outcomes') :
    ((outcomes.filterMap failureOf?).any fun f => f.kind == kind) =
      (outcomes'.filterMap failureOf?).any fun f => f.kind == kind := by
  induction h with
  | nil => rfl
  | cons ho _ ih =>
    cases ho with
    | value => exact ih
    | failure heq =>
      rw [List.filterMap_cons, List.filterMap_cons]
      dsimp only [failureOf?]
      rw [List.any_cons, List.any_cons, heq, ih]

/-- The text of a constant, by what its name stands for. -/
theorem textConstant_eq (p : Project) (s : Site) (name : String) :
    p.textConstant? s name = (do
      match ← s.topValue? name with
      | none => return none
      | some initializer => match ← p.evaluate initializer [] with
        | .ok (.text t) => return some t
        | _ => return none) := by
  unfold textConstant? Site.topValue?
  cases s.program.declarations with
  | error f => rfl
  | ok table => cases (table.lookup? name).bind Declaration.value? <;> rfl

/-- The members that an option is made of. -/
def optionKeys : List String := ["value", "label"]

/-- Members that evaluate alike make the same option. -/
theorem optionOf_alike {p p' : Project} {s s' : Site} {b b' : Bindings}
    (h : ∀ key ∈ optionKeys, Parallel
      (Option.Rel fun v v' => Parallel (Outcome.Alike Eq) (p.evaluate v b) (p'.evaluate v' b'))
      (s.memberValue? key) (s'.memberValue? key)) :
    Parallel (Outcome.Alike Eq) (p.optionOf b s) (p'.optionOf b' s') := by
  unfold Project.optionOf
  refine (h "value" (by decide)).bind fun v v' hv => ?_
  cases hv with
  | none => exact .ok (.failure rfl)
  | some hv =>
    refine hv.bind fun o o' ho => ?_
    cases ho with
    | failure hkind => exact .ok (.failure hkind)
    | value heq =>
      rename_i v v'
      obtain rfl : v = v' := heq
      refine (h "label" (by decide)).bind fun l l' hl => ?_
      cases hl with
      | none => exact .ok (.value rfl)
      | some hl =>
        refine hl.bind fun o o' ho => ?_
        cases ho with
        | failure => exact .ok (.value rfl)
        | value heq =>
          rename_i l l'
          obtain rfl : l = l' := heq
          cases l <;> exact .ok (.value rfl)

/-- Lists whose elements evaluate alike, unless some of them are objects or spread others. -/
theorem literalList_alike {p p' : Project} {s s' : Site} (harray : s.hasKind .array = s'.hasKind .array)
    (hany : (s.named.any fun e => e.unwrap.hasKind .object || e.unwrap.hasKind .spreadElement) =
      s'.named.any fun e => e.unwrap.hasKind .object || e.unwrap.hasKind .spreadElement)
    (hempty : s.named.isEmpty = s'.named.isEmpty)
    (houtcomes :
      ¬(s.named.any fun e => e.unwrap.hasKind .object || e.unwrap.hasKind .spreadElement) = true →
        Parallel (List.Forall₂ (Outcome.Alike Eq)) (s.named.mapM fun e => p.evaluate e [])
          (s'.named.mapM fun e => p'.evaluate e [])) :
    Parallel (Option.Rel (Outcome.Alike Eq)) (literalList p s) (literalList p' s') := by
  unfold Project.literalList
  rw [← harray, ← hany, ← hempty]
  split
  · exact .ok .none
  · split
    · exact .ok .none
    · next hconstants =>
      refine (houtcomes hconstants).bind fun outcomes outcomes' ho => ?_
      dsimp only
      rw [← values_alike ho]
      split
      · exact .ok (.some (.failure rfl))
      · exact .ok (.some (.value rfl))

/-- Lists whose elements are options alike. -/
theorem objectList_alike {p p' : Project} {s s' : Site} (harray : s.hasKind .array = s'.hasKind .array)
    (hoptions : Parallel (List.Forall₂ (Outcome.Alike Eq)) (p.listOptions s) (p'.listOptions s')) :
    Parallel (Option.Rel (Outcome.Alike Eq)) (objectList p s) (objectList p' s') := by
  unfold Project.objectList
  rw [← harray]
  split
  · exact .ok .none
  · refine hoptions.bind fun options options' ho => ?_
    dsimp only
    rw [← forall₂_isEmpty ho, ← collect_alike ho, ← failures_alike _ ho]
    refine Parallel.same_bind _ fun choices _ => ?_
    split
    · exact .ok (.some (.failure rfl))
    · exact .ok (.some (.value rfl))

/-- An idiom that applies to corresponding expressions alike, with the same choices. -/
def IdiomAlike (p p' : Project) (Same : Site → Site → Prop) (idiom : Idiom) : Prop :=
  ∀ s s', Same s s' → Parallel (Option.Rel (Outcome.Alike Eq)) (idiom p s) (idiom p' s')

namespace SettingCorrespondence

variable {p p' : Project} {Same Init : Site → Site → Prop} (c : SettingCorrespondence p p' Same Init)
  {s s' : Site} {b b' : Bindings}

include c

/-! ### Literals -/

theorem evaluate (h : Unwrapped Same s s') (hb : Bindings.Alike Same b b') :
    Parallel (Outcome.Alike Eq) (p.evaluate s b) (p'.evaluate s' b') :=
  c.evaluateWithin _ s s' b b' h hb

theorem isFunction (h : Same s s') : s.isFunction = s'.isFunction := by
  rw [Site.isFunction, Site.isFunction, c.kind h]

theorem isStringLiteral (h : Same s s') : s.isStringLiteral = s'.isStringLiteral := by
  unfold Site.isStringLiteral
  rw [← c.hasKind h, ← c.hasKind h]
  cases htemplate : s.hasKind .templateString with
  | false => rfl
  | true => rw [c.substitutions h htemplate]

theorem firstArgument (h : Same s s') :
    Option.Rel (Unwrapped Same) s.firstArgument? s'.firstArgument? := by
  unfold Site.firstArgument?
  rw [List.head?_eq_getElem?, List.head?_eq_getElem?]
  exact forall₂_getElem (c.arguments h) 0

theorem spreadSource (h : Same s s') :
    Option.Rel (Unwrapped Same) s.spreadSource? s'.spreadSource? := by
  unfold Site.spreadSource?
  rw [List.head?_eq_getElem?, List.head?_eq_getElem?]
  exact forall₂_getElem (c.parts h) 0

/-- The elements of a list behind their wrappers. -/
theorem unwrappedElements (h : Same s s') :
    List.Forall₂ Same (s.named.map Site.unwrap) (s'.named.map Site.unwrap) :=
  List.forall₂_map_left_iff.2 (List.forall₂_map_right_iff.2 (c.parts h))

theorem array (h : Unwrapped Same s s') :
    Parallel (Option.Rel fun s s' => Same s s' ∧ s.hasKind .array = true) (p.array? s) (p'.array? s') :=
  (c.denoted h).map fun o o' ho => by
    cases ho with
    | none => exact .none
    | some ho =>
      unfold onlyKind
      rw [Option.filter_some, Option.filter_some, ← c.hasKind ho]
      split
      · next hkind => exact .some ⟨ho, hkind⟩
      · exact .none

theorem object (h : Unwrapped Same s s') :
    Parallel (Option.Rel fun s s' => Same s s' ∧ s.hasKind .object = true) (p.object? s)
      (p'.object? s') :=
  (c.denoted h).map fun o o' ho => by
    cases ho with
    | none => exact .none
    | some ho =>
      unfold onlyKind
      rw [Option.filter_some, Option.filter_some, ← c.hasKind ho]
      split
      · next hkind => exact .some ⟨ho, hkind⟩
      · exact .none

theorem objectPairs (h : Same s s') (hs : s.hasKind .object = true) :
    Parallel (List.Forall₂ fun e e' => e.1 = e'.1 ∧ Same e.2 e'.2) s.pairs s'.pairs := by
  unfold Site.pairs
  have hfound : Parallel
      (List.Forall₂ (Option.Rel fun (e e' : String × Site) => e.1 = e'.1 ∧ Same e.2 e'.2))
      ((s.named.filter (·.hasKind .pair)).mapM fun pair => do
        return (← pair.memberKey?).map fun key => (key, pair))
      ((s'.named.filter (·.hasKind .pair)).mapM fun pair => do
        return (← pair.memberKey?).map fun key => (key, pair)) :=
    Parallel.mapM (c.pairs h hs) fun pair pair' hpair => by
      rw [← c.memberKey hpair.2]
      refine (Parallel.refl _).bind fun key _ hkey => hkey ▸ .ok ?_
      cases key with
      | none => exact .none
      | some key => exact .some ⟨rfl, hpair.2⟩
  exact hfound.bind fun found found' hrel => .ok (List.rel_filterMap (fun _ _ ho => ho) hrel)

/-! ### Lists -/

theorem optionsExpression (h : Unwrapped Same s s') :
    Parallel Same (p.optionsExpression s) (p'.optionsExpression s') := by
  unfold Project.optionsExpression
  have hstart : Same
      (if s.unwrap.isFunction then (s.unwrap.bodyExpression?.map Site.unwrap).getD s.unwrap else s.unwrap)
      (if s'.unwrap.isFunction then (s'.unwrap.bodyExpression?.map Site.unwrap).getD s'.unwrap
        else s'.unwrap) := by
    rw [← c.isFunction h]
    split
    · rcases option_rel_cases (c.body h) with ⟨hb, hb'⟩ | ⟨e, e', hb, hb', he⟩
      · rw [hb, hb']
        exact h
      · rw [hb, hb']
        exact he
    · exact h
  dsimp only
  generalize (if s.unwrap.isFunction = true then _ else s.unwrap) = t at hstart
  generalize (if s'.unwrap.isFunction = true then _ else s'.unwrap) = t' at hstart
  rw [← c.hasKind hstart, ← c.hasKind hstart]
  split
  · refine (c.denoted (c.unwrapped hstart)).bind fun found found' hfound => ?_
    cases hfound with
    | none => exact .ok hstart
    | some hfound =>
      dsimp only
      rw [← c.hasKind hfound, ← c.hasKind hfound]
      split
      · exact .ok hfound
      · exact .ok hstart
  · exact .ok hstart

/-- Elements of a list as they stand: both are spreads or neither is. -/
def ElementsAlike (Same : Site → Site → Prop) : List Site → List Site → Prop :=
  List.Forall₂ fun e e' =>
    Unwrapped Same e e' ∧ e.hasKind .spreadElement = e'.hasKind .spreadElement

theorem elementsAlike (h : Same s s') (hs : s.hasKind .array = true) :
    ElementsAlike Same s.named s'.named := by
  have helements := c.parts h
  have hspreads := c.spreads h hs
  unfold ElementsAlike
  generalize s.named = elements at helements hspreads
  generalize s'.named = elements' at helements hspreads
  induction helements with
  | nil => exact .nil
  | cons he _ ih =>
    cases hspreads with
    | cons hspread hrest => exact .cons ⟨he, hspread⟩ (ih hrest)

theorem spreadElements {elements elements' : List Site} (h : ElementsAlike Same elements elements') :
    Parallel (Option.Rel (List.Forall₂ (Element.Alike Same))) (p.spreadElements elements)
      (p'.spreadElements elements') := by
  induction h with
  | nil => exact .ok (.some .nil)
  | @cons e e' rest rest' he _ ih =>
    obtain ⟨hunwrapped, hspread⟩ := he
    unfold Project.spreadElements
    rw [← hspread]
    split
    · next hkind =>
      have hsame := hunwrapped
      rw [Unwrapped, Site.unwrap_eq_self hkind rfl, Site.unwrap_eq_self (hspread ▸ hkind) rfl] at hsame
      rcases option_rel_cases (c.spreadSource hsame) with ⟨ht, ht'⟩ | ⟨t, t', ht, ht', hs⟩
      · rw [ht, ht']
        exact .ok .none
      · rw [ht, ht']
        refine (c.array hs).bind fun list list' hlist => ?_
        cases hlist with
        | none => exact .ok .none
        | some hlist =>
          refine ih.bind fun rest rest' hrest => .ok ?_
          cases hrest with
          | none => exact .none
          | some hrest =>
            refine .some (List.rel_append ?_ hrest)
            exact List.forall₂_map_left_iff.2 (List.forall₂_map_right_iff.2
              ((c.parts hlist.1).imp fun _ _ he => .site he))
    · refine ih.bind fun rest rest' hrest => .ok ?_
      cases hrest with
      | none => exact .none
      | some hrest => exact .some (.cons (.site hunwrapped) hrest)

theorem mapSource {r r' : Option Site} (h : Option.Rel (Unwrapped Same) r r') :
    Parallel (Option.Rel Same) (p.mapSource? r) (p'.mapSource? r') := by
  cases h with
  | none => exact .ok .none
  | some hs =>
    rename_i s s'
    unfold Project.mapSource?
    dsimp only [Option.map_some]
    rw [← c.hasKind hs, ← c.hasKind hs]
    split
    · exact c.denoted (c.unwrapped hs)
    · exact .ok (.some hs)

/-- The elements of corresponding lists, or the keys or values of corresponding objects. -/
theorem elementsOf (h : Same s s') :
    Parallel (Option.Rel (List.Forall₂ (Element.Alike Same))) (p.elementsOf? s)
      (p'.elementsOf? s') := by
  unfold Project.elementsOf?
  rw [← c.hasKind h, ← c.methodOn h, ← c.methodOn h]
  split
  · next hlist => exact c.spreadElements (c.elementsAlike h hlist)
  · split
    · rcases option_rel_cases (c.firstArgument h) with ⟨ha, ha'⟩ | ⟨a, a', ha, ha', hargument⟩
      · rw [ha, ha']
        exact .ok .none
      · rw [ha, ha']
        refine (c.object hargument).bind fun o o' ho => ?_
        cases ho with
        | none => exact .ok .none
        | some ho =>
          refine (c.objectPairs ho.1 ho.2).bind fun pairs pairs' hpairs => ?_
          split
          · refine .ok (.some (List.forall₂_map_left_iff.2 (List.forall₂_map_right_iff.2
              (hpairs.imp fun e e' he => ?_))))
            rw [← he.1]
            exact .key _
          · refine .ok (.some (List.rel_filterMap (fun e e' he => ?_) hpairs))
            exact option_rel_map (c.partOf he.2 .value) fun _ _ hv => .site hv
    · exact .ok .none

theorem mapElements {r r' : Option Site} (h : Option.Rel (Unwrapped Same) r r') :
    Parallel (Option.Rel (List.Forall₂ (Element.Alike Same))) (p.mapElements r)
      (p'.mapElements r') := by
  rw [mapElements_eq, mapElements_eq]
  refine (c.mapSource h).bind fun o o' ho => ?_
  cases ho with
  | none => exact .ok .none
  | some hs => exact c.elementsOf hs

/-! ### Options -/

theorem optionOf (hb : Bindings.Alike Same b b') (h : Same s s') :
    Parallel (Outcome.Alike Eq) (p.optionOf b s) (p'.optionOf b' s') :=
  optionOf_alike fun key _ => (c.memberValue h key).mono fun _ _ ho =>
    option_rel_mono ho fun _ _ hv => c.evaluate hv hb

theorem elementOption (h : Same s s') :
    Parallel (Outcome.Alike Eq) (p.elementOption s) (p'.elementOption s') := by
  unfold Project.elementOption
  rw [← c.hasKind h]
  split
  · exact c.optionOf .nil h
  · refine (c.evaluate (c.unwrapped h) .nil).bind fun o o' ho => .ok ?_
    cases ho with
    | failure hkind => exact .failure hkind
    | value heq => exact .value (heq ▸ rfl)

theorem innerOptions (h : Same s s') :
    Parallel (List.Forall₂ (Outcome.Alike Eq)) (p.innerOptions s) (p'.innerOptions s') :=
  Parallel.mapM (forall₂_filter (c.unwrappedElements h) fun _ _ he => by rw [c.hasKind he])
    fun _ _ => c.elementOption

theorem optionsAt (h : Same s s') :
    Parallel (List.Forall₂ (Outcome.Alike Eq)) (p.optionsAt s) (p'.optionsAt s') := by
  unfold Project.optionsAt
  rw [← c.hasKind h]
  split
  · rcases option_rel_cases (c.spreadSource h) with ⟨ht, ht'⟩ | ⟨t, t', ht, ht', hs⟩
    · rw [ht, ht']
      exact .ok (.cons (.failure rfl) .nil)
    · rw [ht, ht']
      refine (c.array hs).bind fun list list' hlist => ?_
      cases hlist with
      | none => exact .ok (.cons (.failure rfl) .nil)
      | some hlist => exact c.innerOptions hlist.1
  · exact (c.elementOption h).bind fun _ _ ho => .ok (.cons ho .nil)

theorem listOptions (h : Same s s') :
    Parallel (List.Forall₂ (Outcome.Alike Eq)) (p.listOptions s) (p'.listOptions s') := by
  rw [listOptions_eq, listOptions_eq]
  exact Parallel.bind (P := List.Forall₂ (List.Forall₂ (Outcome.Alike Eq)))
    (Parallel.mapM (c.unwrappedElements h) fun _ _ => c.optionsAt)
    fun _ _ hoptions => .ok (List.rel_flatten hoptions)

/-! ### Callbacks -/

theorem mapCallback (h : Same s s') :
    Parallel (Option.Rel Same) (p.mapCallback? s) (p'.mapCallback? s') := by
  unfold Project.mapCallback?
  rcases option_rel_cases (c.firstArgument h) with ⟨ha, ha'⟩ | ⟨a, a', ha, ha', hargument⟩
  · rw [ha, ha']
    exact .ok .none
  · rw [ha, ha']
    dsimp only
    rw [← c.isFunction hargument]
    have hfiltered (o o' : Option Site) (ho : Option.Rel Same o o') :
        Option.Rel Same (o.filter Site.isFunction) (o'.filter Site.isFunction) :=
      option_rel_filter ho fun _ _ => c.isFunction
    split
    · exact .ok (hfiltered _ _ (.some hargument))
    · exact (c.denoted (c.unwrapped hargument)).bind fun o o' ho => .ok (hfiltered o o' ho)

theorem callbackObject (h : Same s s') :
    Option.Rel Same (callbackObject? s) (callbackObject? s') :=
  option_rel_filter (option_rel_map (c.body h) fun _ _ hbody => hbody) fun _ _ hs => c.hasKind hs _

omit c in
theorem elementBindings (parameters : List String) {elements elements' : List Element}
    (h : List.Forall₂ (Element.Alike Same) elements elements') :
    List.Forall₂ (Bindings.Alike Same) (elementBindings parameters elements)
      (elementBindings parameters elements') := by
  refine List.forall₂_map_left_iff.2 (List.forall₂_map_right_iff.2
    ((forall₂_zipIdx h 0).imp fun e e' he => ?_))
  obtain ⟨e, i⟩ := e
  obtain ⟨e', i'⟩ := e'
  obtain ⟨helement, rfl⟩ : Element.Alike Same e e' ∧ i = i' := he
  match parameters with
  | [] => exact .nil
  | [x] => exact .cons ⟨rfl, helement.bound⟩ .nil
  | x :: j :: _ => exact .cons ⟨rfl, .value _⟩ (.cons ⟨rfl, helement.bound⟩ .nil)

/-! ### Idioms -/

theorem literalList : IdiomAlike p p' Same literalList := fun s s' h =>
  literalList_alike (c.hasKind h .array)
    (forall₂_any (c.parts h) fun e e' he => by rw [c.hasKind he, c.hasKind he])
    (forall₂_isEmpty (c.parts h)) fun _ => Parallel.mapM (c.parts h) fun _ _ he => c.evaluate he .nil

theorem objectList : IdiomAlike p p' Same objectList := fun _ _ h =>
  objectList_alike (c.hasKind h .array) (c.listOptions h)

theorem mappedList : IdiomAlike p p' Same mappedList := by
  intro s s' h
  unfold Project.mappedList
  rw [← c.method h]
  split
  · exact .ok .none
  · refine (c.mapElements (c.receiver h)).bind fun elements elements' helements => ?_
    refine (c.mapCallback h).bind fun callback callback' hcallback => ?_
    cases helements with
    | none => exact .ok .none
    | some helements =>
      cases hcallback with
      | none => exact .ok .none
      | some hcallback =>
        dsimp only
        rename_i elements elements' callback callback'
        rw [← c.parameterNames hcallback]
        cases callback.parameterNames? with
        | none => exact .ok (.some (.failure rfl))
        | some parameters =>
          rcases option_rel_cases (c.callbackObject hcallback) with
            ⟨hbody, hbody'⟩ | ⟨body, body', hbody, hbody', hsame⟩
          · rw [hbody, hbody']
            exact .ok (.some (.failure rfl))
          · rw [hbody, hbody']
            refine Parallel.bind (Parallel.mapM (elementBindings parameters helements)
              fun b b' hb => c.optionOf hb hsame) fun options options' ho => ?_
            rw [← collect_alike ho, ← forall₂_isEmpty helements]
            refine Parallel.same_bind _ fun choices _ => ?_
            split
            · exact .ok (.some (.failure rfl))
            · exact .ok (.some (.value rfl))

theorem copiedList : IdiomAlike p p' Same copiedList := by
  intro s s' h
  unfold Project.copiedList
  rw [← c.methodOn h]
  split
  · exact .ok .none
  · rcases option_rel_cases (c.firstArgument h) with ⟨ha, ha'⟩ | ⟨a, a', ha, ha', hargument⟩
    · rw [ha, ha']
      exact .ok (.some (.failure rfl))
    · rw [ha, ha']
      refine (c.array hargument).bind fun list list' hlist => ?_
      cases hlist with
      | none => exact .ok (.some (.failure rfl))
      | some hlist =>
        refine (c.literalList _ _ hlist.1).bind fun o o' ho => ?_
        cases ho with
        | none => exact .ok (.some (.failure rfl))
        | some ho => exact .ok (.some ho)

/-! ### Lookup tables -/

theorem textConstant (h : Same s s') (name : String) :
    Parallel Eq (p.textConstant? s name) (p'.textConstant? s' name) := by
  rw [textConstant_eq, textConstant_eq]
  refine (c.topValue h name).bind fun v v' hv => ?_
  cases hv with
  | none => exact .ok rfl
  | some hv =>
    refine (c.evaluate (c.initial hv) .nil).bind fun o o' ho => ?_
    cases ho with
    | failure => exact .ok rfl
    | value heq =>
      rename_i v v'
      obtain rfl : v = v' := heq
      cases v <;> exact .ok rfl

theorem helperText {call call' name name' : Site} (h : Same s s') (hcall : Same call call')
    (hname : Same name name') (hliteral : name.isStringLiteral = true) :
    Parallel Eq (p.helperText s call name) (p'.helperText s' call' name') := by
  unfold Project.helperText
  rw [← c.lookups]
  refine (Parallel.firstSome (Q := Eq) (P := fun l l' => l = l' ∧ l ∈ p.lookups)
    (List.forall₂_same.2 fun l hl => ⟨rfl, hl⟩) fun l l' hl => ?_).mono fun o o' => option_rel_eq
  obtain ⟨rfl, hmem⟩ := hl
  refine .same_bind l.helper fun helper hhelper => ?_
  rw [← c.helper hcall l hmem helper hhelper]
  split
  · exact .ok .none
  · refine .same_bind l.baseConstant fun base _ => ?_
    refine (c.textConstant h base).bind fun base _ hbase => hbase ▸ ?_
    refine .same_bind l.revisionConstant fun revision _ => ?_
    refine (c.textConstant h revision).bind fun revision _ hrevision => hrevision ▸ ?_
    rw [← c.stringValue hname hliteral]
    split
    · refine .same_bind name.stringValue fun called _ => ?_
      refine .same_bind l.template fun template _ => ?_
      exact .same_bind _ fun text _ => .ok (.some rfl)
    · exact .ok .none

theorem entryText {entry entry' : Site} (h : Same s s') (hentry : Same entry entry') :
    Parallel Eq (p.entryText s entry) (p'.entryText s' entry') := by
  unfold Project.entryText
  rw [← c.isStringLiteral hentry, ← c.hasKind hentry]
  split
  · next hliteral =>
    rw [← c.stringValue hentry hliteral]
    exact .refl _
  · split
    · rcases option_rel_cases (c.firstArgument hentry) with ⟨ha, ha'⟩ | ⟨a, a', ha, ha', hargument⟩
      · rw [ha, ha']
        exact .ok rfl
      · rw [ha, ha']
        dsimp only [Option.map_some]
        rw [← c.isStringLiteral hargument]
        split
        · next hliteral => exact c.helperText h hentry hargument hliteral
        · exact .ok rfl
    · exact .ok rfl

theorem entryTexts {pairs pairs' : List Site} (h : Same s s') (hpairs : List.Forall₂ Same pairs pairs') :
    Parallel Eq (p.entryTexts s pairs) (p'.entryTexts s' pairs') := by
  induction hpairs with
  | nil => exact .ok rfl
  | @cons pair pair' rest rest' hpair _ ih =>
    have hrest (found : Option String) : Parallel Eq
        (do return found.toList ++ (← p.entryTexts s rest))
        (do return found.toList ++ (← p'.entryTexts s' rest')) :=
      ih.bind fun texts _ htexts => htexts ▸ .ok rfl
    unfold Project.entryTexts
    rw [← c.memberKey hpair]
    refine .same_bind _ fun key _ => ?_
    cases key with
    | none => exact hrest none
    | some key =>
      rcases option_rel_cases (c.partOf hpair .value) with ⟨hv, hv'⟩ | ⟨v, v', hv, hv', hvalue⟩
      · rw [Site.pairValue?, Site.pairValue?, hv, hv']
        exact hrest none
      · rw [Site.pairValue?, Site.pairValue?, hv, hv']
        exact (c.entryText h hvalue).bind fun found _ hfound => hfound ▸ hrest found

theorem tableTexts (h : Same s s') (hs : s.hasKind .object = true) :
    Parallel Eq (p.tableTexts s) (p'.tableTexts s') :=
  c.entryTexts h ((c.pairs h hs).imp fun _ _ hpair => hpair.2)

theorem keys (h : Same s s') (hs : s.hasKind .object = true) : Parallel Eq s.keys s'.keys := by
  unfold Site.keys
  refine (c.objectPairs h hs).bind fun pairs pairs' hpairs => .ok ?_
  induction hpairs with
  | nil => rfl
  | cons he _ ih => rw [List.map_cons, List.map_cons, he.1, ih]

theorem indexedTable (h : Same s s') :
    Parallel (Option.Rel Same) (indexedTable? s) (indexedTable? s') := by
  unfold Project.indexedTable?
  rcases option_rel_cases (c.body h) with ⟨hb, hb'⟩ | ⟨body, body', hb, hb', hbody⟩
  · rw [hb, hb']
    exact .ok .none
  · rw [hb, hb']
    refine (c.memberValue hbody "value").bind fun v v' hv => .ok ?_
    have helement : Option.Rel Same ((v.map Site.unwrap).filter (·.hasKind .subscriptExpression))
        ((v'.map Site.unwrap).filter (·.hasKind .subscriptExpression)) :=
      option_rel_filter (option_rel_map hv fun _ _ hs => hs) fun _ _ hs => c.hasKind hs _
    rcases option_rel_cases helement with ⟨he, he'⟩ | ⟨e, e', he, he', hsame⟩
    · rw [he, he']
      exact .none
    · rw [he, he']
      exact option_rel_filter (option_rel_map (c.partOf hsame .object) fun _ _ hs => hs)
        fun _ _ hs => c.hasKind hs _

/-- The argument of `Object.keys`, where a table is listed by its keys. -/
theorem keysArgument {o o' : Option Site} (h : Option.Rel Same o o') :
    Option.Rel (Unwrapped Same)
      ((o.filter (·.isMethodCallOn "Object" "keys")).bind (·.firstArgument?))
      ((o'.filter (·.isMethodCallOn "Object" "keys")).bind (·.firstArgument?)) := by
  have hfiltered : Option.Rel Same (o.filter (·.isMethodCallOn "Object" "keys"))
      (o'.filter (·.isMethodCallOn "Object" "keys")) :=
    option_rel_filter h fun _ _ hs => c.methodOn hs _ _
  rcases option_rel_cases hfiltered with ⟨ho, ho'⟩ | ⟨call, call', ho, ho', hcall⟩
  · rw [ho, ho']
    exact .none
  · rw [ho, ho']
    exact c.firstArgument hcall

theorem mapReceiver (h : Same s s') :
    Parallel (Option.Rel Same) (p.mapReceiver? s) (p'.mapReceiver? s') := by
  unfold Project.mapReceiver?
  rcases option_rel_cases (c.receiver h) with ⟨hr, hr'⟩ | ⟨r, r', hr, hr', hreceiver⟩
  · rw [hr, hr']
    exact .ok .none
  · rw [hr, hr']
    exact c.denoted hreceiver

theorem callbackTable (h : Same s s') :
    Parallel (Option.Rel Same) (p.callbackTable? s) (p'.callbackTable? s') := by
  unfold Project.callbackTable?
  refine (c.mapCallback h).bind fun callback callback' hcallback => ?_
  cases hcallback with
  | none => exact .ok .none
  | some hcallback => exact c.indexedTable hcallback

theorem tableExpression (h : Same s s') :
    Parallel (Option.Rel (Unwrapped Same)) (p.tableExpression? s) (p'.tableExpression? s') := by
  rw [tableExpression_eq, tableExpression_eq]
  refine (c.callbackTable h).bind fun t t' ht => ?_
  cases ht with
  | some ht => exact .ok (.some (c.unwrapped ht))
  | none => exact (c.mapReceiver h).bind fun o o' ho => .ok (c.keysArgument ho)

theorem tableList : IdiomAlike p p' Same tableList := by
  intro s s' h
  unfold Project.tableList
  rw [← c.method h]
  split
  · exact .ok .none
  · refine (c.tableExpression h).bind fun e e' he => ?_
    cases he with
    | none => exact .ok .none
    | some he =>
      refine (c.object he).bind fun table table' htable => ?_
      cases htable with
      | none => exact .ok (.some (.failure rfl))
      | some htable =>
        refine (c.tableTexts htable.1 htable.2).bind fun texts _ htexts => htexts ▸ ?_
        dsimp only
        have hchoices (texts : List String) : Parallel (Option.Rel (Outcome.Alike Eq))
            (if texts.isEmpty then applies (.error .emptyTable)
              else applies (.ok ⟨texts.map .text, []⟩))
            (if texts.isEmpty then applies (.error .emptyTable)
              else applies (.ok ⟨texts.map .text, []⟩)) := by
          split
          · exact .ok (.some (.failure rfl))
          · exact .ok (.some (.value rfl))
        split
        · exact (c.keys htable.1 htable.2).bind fun keys _ hkeys => hkeys ▸ hchoices keys
        · exact hchoices texts

/-! ### All idioms -/

theorem idioms : ∀ idiom ∈ idioms, IdiomAlike p p' Same idiom :=
  List.forall_mem_cons.2 ⟨c.literalList, List.forall_mem_cons.2 ⟨c.objectList,
    List.forall_mem_cons.2 ⟨c.mappedList, List.forall_mem_cons.2 ⟨c.copiedList,
      List.forall_mem_singleton.2 c.tableList⟩⟩⟩⟩

omit c in
theorem firstChoices {tried : List Idiom} (hall : ∀ idiom ∈ tried, IdiomAlike p p' Same idiom)
    (h : Same s s') {last last' : Failure} (hlast : last.kind = last'.kind) :
    Parallel (Outcome.Alike Eq) (p.firstChoices s last tried) (p'.firstChoices s' last' tried) := by
  induction tried generalizing last last' with
  | nil => exact .ok (.failure hlast)
  | cons idiom rest ih =>
    obtain ⟨hidiom, hrest⟩ := List.forall_mem_cons.1 hall
    unfold Project.firstChoices
    refine (hidiom s s' h).bind fun o o' ho => ?_
    cases ho with
    | none => exact ih hrest hlast
    | some ho =>
      cases ho with
      | value heq => exact .ok (.value heq)
      | failure hkind => exact ih hrest hkind

/-- **Choices.** Corresponding expressions offer the same choices. -/
theorem matchOptions (h : Unwrapped Same s s') :
    Parallel (Outcome.Alike Eq) (p.matchOptions s) (p'.matchOptions s') :=
  (c.optionsExpression h).bind fun _ _ he => firstChoices c.idioms he rfl

theorem settingsAlike (h : Same s s') : SettingsAlike Same s s' := fun key _ => c.memberValue h key

omit c in
theorem choicesOf_alike
    (h : Parallel (Option.Rel fun v v' => Parallel (Outcome.Alike Eq) (p.matchOptions v) (p'.matchOptions v'))
      (s.memberValue? "options") (s'.memberValue? "options")) :
    Parallel Eq (p.choicesOf s) (p'.choicesOf s') := by
  unfold Project.choicesOf
  refine h.bind fun v v' hv => ?_
  cases hv with
  | none => exact .ok rfl
  | some hv =>
    refine hv.bind fun o o' ho => ?_
    cases ho with
    | value heq => exact heq ▸ .ok rfl
    | failure => exact .ok rfl

theorem choicesOf (h : SettingsAlike Same s s') : Parallel Eq (p.choicesOf s) (p'.choicesOf s') :=
  choicesOf_alike ((h "options" (by decide)).mono fun _ _ ho => option_rel_mono ho fun _ _ => c.matchOptions)

end SettingCorrespondence
end SettingsHarvest
