import SettingsHarvest.Proofs.Shorthands

/-! Names alone, written out.

Settings with names alone are read like those with the names written out (`Abbreviates.extractSetting`), and
so are options, marks, texts of tables and accesses that are evaluated: `Project.KeepsMeaning` lists what
comes to the same. References, the fields of objects that calls are given, keys, and options that are named
go through pairs, and pass over a name that is alone (`Project.Overlooks`). -/
namespace SettingsHarvest
open Syntax Project

/-! ### Settings -/

namespace Syntax.Site

variable {p : Project} {o o' v v' : Site} {key : String}

theorem isStringLiteral_of_isNameUse {s : Site} (h : s.isNameUse = true) : s.isStringLiteral = false := by
  rw [isStringLiteral, hasKind_of_isNameUse h (by decide) (by decide),
    hasKind_of_isNameUse h (by decide) (by decide)]
  rfl

namespace MeansSame

/-- The text of what means the same: no name is one. -/
theorem text (h : v.MeansSame v') :
    Parallel Eq (if v.unwrap.isStringLiteral then some <$> v.unwrap.stringValue else .ok none)
      (if v'.unwrap.isStringLiteral then some <$> v'.unwrap.stringValue else .ok none) := by
  rcases h with h | h
  · have h : v.unwrap.Aside v'.unwrap := h
    have hliteral := (Aside.correspondence bareProject).isStringLiteral h
    rw [← hliteral, ← h.stringValue_eq]
    exact .refl _
  · rw [unwrap_of_isNameUse h.isName, unwrap_of_isNameUse h.alsoName, isStringLiteral_of_isNameUse h.isName,
      isStringLiteral_of_isNameUse h.alsoName]
    exact .ok rfl

theorem sortAt (h : v.MeansSame v') :
    Parallel (Outcome.Alike Eq) (p.sortAt v.unwrap) (p.sortAt v'.unwrap) := by
  rcases h with h | h
  · exact (Aside.correspondence p).sortAt h
  · rw [unwrap_of_isNameUse h.isName, unwrap_of_isNameUse h.alsoName, Project.sortAt, Project.sortAt,
      hasKind_of_isNameUse h.isName (by decide) (by decide),
      hasKind_of_isNameUse h.alsoName (by decide) (by decide)]
    exact sortOfValue_alike (h.evaluateWithin .nil _)

end MeansSame

namespace Abbreviates

theorem textMember (h : o.Abbreviates ListAlike o') (hkey : key ≠ "options") :
    Parallel Eq (o.textMember? key) (o'.textMember? key) := by
  unfold Site.textMember?
  refine (h.memberValue hkey).bind fun v v' hv => ?_
  cases hv with
  | none => exact .ok rfl
  | some hv => exact hv.text

theorem flagMember (h : o.Abbreviates ListAlike o') (hkey : key ≠ "options") :
    Parallel Eq (o.flagMember key) (o'.flagMember key) := by
  unfold Site.flagMember
  refine (h.memberValue hkey).bind fun v v' hv => .ok ?_
  cases hv with
  | none => rfl
  | some hv => exact hv.hasKind_unwrap (by decide) (by decide)

/-- The options of two settings, where they are no name alone: one aside the other, or lists alike. -/
theorem options (h : o.Abbreviates ListAlike o') (hout : o.WritesOut "options") :
    Parallel (Option.Rel fun v v' => v.Aside v' ∨ v.ListAlike v') (o.memberValue? "options")
      (o'.memberValue? "options") :=
  (h.memberBehind hout).mono fun _ _ ho => option_rel_mono ho fun _ _ hv => hv.imp_right (·.2)

theorem shown (h : o.Abbreviates ListAlike o') (hout : o.WritesOut "options") :
    p.SettingsShown p o o' where
  text key hkey := h.textMember (ne_of_mem_of_not_mem hkey (by decide))
  flag key hkey := h.flagMember (ne_of_mem_of_not_mem hkey (by decide))
  optionType := optionTypeOf_alike ((h.memberValue (by decide)).mono fun _ _ ho =>
    option_rel_mono ho fun _ _ => MeansSame.sortAt)
  choices := by
    have c := Aside.correspondence p
    refine SettingCorrespondence.choicesOf_alike ((h.options hout).mono fun _ _ ho =>
      option_rel_mono ho fun v v' hv => ?_)
    rcases hv with hv | hv
    · exact c.matchOptions hv.unwrap
    · exact hv.matchOptions
  marker := by
    have c := Aside.correspondence p
    refine defaultMarker_alike ((h.options hout).mono fun _ _ ho => option_rel_mono ho fun v v' hv => ?_)
    rcases hv with hv | hv
    · exact c.markerIn hv.unwrap
    · exact hv.markerIn

theorem evidence (h : o.Abbreviates ListAlike o') (hout : o.WritesOut "default") :
    Parallel (Evidence.Alike Aside) (p.inspectDefault o) (p.inspectDefault o') := by
  have c := Aside.correspondence p
  refine c.evidenceOf (h.getter "default") ((h.memberBehind hout).mono fun _ _ ho =>
    option_rel_mono ho fun v v' hv => ?_)
  rcases hv with hv | ⟨hkey, -⟩
  · refine ⟨hv.unwrap, hv.declaredShape_eq, hv.isStringArray_eq, hv.isObjectArray_eq, fun _ => ?_⟩
    rw [isEmptyTypedArray, isEmptyTypedArray, hv.node, forall₂_isEmpty hv.unwrap.named]
  · exact absurd hkey (by decide)

/-- **Settings.** A setting is the same with its names alone and with them written out, as long as its options
and its default are no names alone. -/
theorem extractSetting (h : o.Abbreviates ListAlike o') (hoptions : o.WritesOut "options")
    (hdefault : o.WritesOut "default") (name : String) :
    Parallel (Outcome.Alike Eq) (p.extractSetting name o) (p.extractSetting name o') :=
  (Aside.correspondence p).extractSetting_shown name (h.shown hoptions) (h.evidence hdefault)

end Abbreviates
end Syntax.Site

/-! ### Accesses -/

namespace Project

variable {p : Project} {b b' : Bindings} {s s' o o' literal : Site} {key : String} {recur : Evaluator}

/-- An access that evaluation comes to a literal with. -/
def LooksUp (p : Project) (b : Bindings) (s literal : Site) (key : String) : Prop :=
  ∃ base, p.ReadsKey b s base key ∧ p.container? b base.unwrap = .ok (some literal)

/-- A reference to a member of an object literal. -/
def RefersInto (p : Project) (s object : Site) (key : String) : Prop :=
  ∃ base, ReadsFrom s.unwrap base key ∧ p.objectWithin (deepestChain - 1) base = .ok (some object)

/-- What denotes a literal is not the name of an enumeration. -/
theorem declaredEnumMember_of_container {base : Site} (h : p.container? b base = .ok (some literal)) :
    p.declaredEnumMember? recur b base key = .ok none := by
  by_cases hfree : (base.hasKind .identifier && (b.lookup base.text).isNone) = true
  · obtain ⟨hname, hlookup⟩ := Bool.and_eq_true_iff.1 hfree
    rw [container?, if_pos hname, Option.isNone_iff_eq_none.1 hlookup] at h
    obtain ⟨found, hfound, h⟩ := bind_eq_ok.1 h
    obtain ⟨rfl, -⟩ := Option.filter_eq_some_iff.1 (pure_eq_ok.1 h)
    obtain ⟨next, hnext⟩ := exists_initializer hname hfound
    exact declaredEnumMember_eq_none fun _ => hnext
  · rw [declaredEnumMember?, if_neg hfree]

/-- An access to an object literal is evaluated as the member it comes to. -/
theorem ReadsKey.evaluate_of_container {base : Site} (h : p.ReadsKey b s base key)
    (hcontainer : p.container? b base.unwrap = .ok (some o)) (ho : o.hasKind .object = true) :
    p.evaluate s b =
      o.memberValue? key >>= entryValue p (p.evaluateWithin (evaluationDepth - 1)) base key := by
  have hentry : entryIn p b base.unwrap key = o.memberValue? key := by
    rw [entryIn, hcontainer]
    dsimp only [bind, Except.bind]
    rw [entryAt?, if_pos ho]
  rw [h.evaluate_eq, accessValue_eq, declaredEnumMember_of_container hcontainer, ← hentry]
  rfl

theorem LooksUp.evaluate_eq (h : p.LooksUp b s o key) (ho : o.hasKind .object = true) :
    ∃ base, p.evaluate s b =
      o.memberValue? key >>= entryValue p (p.evaluateWithin (evaluationDepth - 1)) base key := by
  obtain ⟨base, hreads, hcontainer⟩ := h
  exact ⟨base, hreads.evaluate_of_container hcontainer ho⟩

/-- A chain ends with a list. -/
theorem chain_of_array {object? : Site → Attempt (Option Site)} {steps : Nat} (hs : s.hasKind .array = true) :
    p.chain object? (steps + 1) s = .ok (some s) := by
  rw [chain_succ, follow, Site.hasKind_ne hs (by decide), Site.hasKind_ne hs (by decide)]
  rfl

/-- A reference goes on with the pair it comes to. -/
theorem RefersInto.denoted_eq (h : p.RefersInto s o key) :
    p.denoted? s = Followed.onward <$> o.propertyValue? key >>=
      Followed.resume (p.chain (p.objectWithin (deepestChain - 1)) (longestChain - 1)) := by
  obtain ⟨base, hreads, hbase⟩ := h
  rw [denoted?, deepestChain, denotedWithin_succ, longestChain, chain_succ, hreads.follow_eq]
  rw [deepestChain] at hbase
  rw [hbase]
  rfl

end Project

namespace Syntax.Site

variable {p : Project} {b b' : Bindings} {s s' o o' v v' : Site} {key : String}

theorem ListAlike.unwrap (h : v.ListAlike v') : v.unwrap.ListAlike v'.unwrap := by
  obtain ⟨harray, harray', helements⟩ := h
  exact ⟨by rwa [unwrap_unwrap], by rwa [unwrap_unwrap], by rwa [unwrap_unwrap, unwrap_unwrap]⟩

/-- Lists have no value. -/
theorem ListAlike.evaluateWithin (h : v.ListAlike v') (depth : Nat) :
    Parallel (Outcome.Alike Eq) (p.evaluateWithin depth v b) (p.evaluateWithin depth v' b') := by
  cases depth with
  | zero => exact .ok (.failure rfl)
  | succ depth =>
    rw [Project.evaluateWithin, Project.evaluateWithin, Project.valueOf, Project.valueOf,
      hasKind_iff.1 h.isArray, hasKind_iff.1 h.alsoArray]
    exact .ok (.failure rfl)

namespace Abbreviates

/-- **Accesses.** An access that comes to a member has the value it has with names written out. -/
theorem evaluate (h : o.Abbreviates ListAlike o') (hs : p.LooksUp b s o key) (hs' : p.LooksUp b' s' o' key)
    (hmember : o.memberValue? key ≠ .ok none) :
    Parallel (Outcome.Alike Eq) (p.evaluate s b) (p.evaluate s' b') := by
  obtain ⟨base, heq⟩ := hs.evaluate_eq h.isObject
  obtain ⟨base', heq'⟩ := hs'.evaluate_eq h.alsoObject
  rw [heq, heq']
  have hrelated := h.memberRelated key
  generalize o.memberValue? key = x at hrelated hmember
  generalize o'.memberValue? key = x' at hrelated
  cases hrelated with
  | fault => exact .fault
  | ok hv =>
    cases hv with
    | none => exact absurd rfl hmember
    | some hv =>
      rcases hv with hv | ⟨-, hv⟩
      · exact hv.evaluateWithin .nil _
      · exact hv.evaluateWithin _

/-- **References.** Without a name alone under the key, a reference leads to the same expression, or to lists
alike. -/
theorem denoted (h : o.Abbreviates ListAlike o') (hout : o.WritesOut key)
    (hs : p.RefersInto s o key) (hs' : p.RefersInto s' o' key) :
    Parallel (Option.Rel fun t t' => t.Aside t' ∨ t.ListAlike t') (p.denoted? s) (p.denoted? s') := by
  have c := Aside.correspondence p
  rw [hs.denoted_eq, hs'.denoted_eq]
  have hbehind := h.propertyValue hout
  generalize o.propertyValue? key = x at hbehind
  generalize o'.propertyValue? key = x' at hbehind
  cases hbehind with
  | fault => exact .fault
  | ok hv =>
    cases hv with
    | none => exact .ok .none
    | @some v v' hv =>
      show Parallel _ (p.chain _ _ v.unwrap) (p.chain _ _ v'.unwrap)
      rcases hv with hv | ⟨-, hv⟩
      · refine (c.chain (fun base base' hbase => ?_) _ hv.unwrap).mono fun _ _ ho =>
          option_rel_mono ho fun _ _ => .inl
        exact (c.denotedWithin _ hbase).map fun _ _ ho => c.onlyKind ho .object
      · rw [show longestChain - 1 = 14 + 1 from rfl, chain_of_array hv.isArray, chain_of_array hv.alsoArray]
        exact .ok (.some (.inr hv.unwrap))

end Abbreviates
end Syntax.Site

/-! ### Tables -/

namespace Project

variable {p : Project} {s o o' : Site}

/-- The text that a member gives a table. -/
def memberText (p : Project) (table member : Site) : Attempt (Option String) :=
  if member.hasKind .pair then do
    match ← member.memberKey?, member.pairValue? with
    | some _, some v => p.entryText table v.unwrap
    | _, _ => return none
  else .ok none

theorem tableTexts_eq (p : Project) (table : Site) :
    p.tableTexts table = List.reduceOption <$> table.named.mapM (p.memberText table) := by
  rw [tableTexts]
  induction table.named with
  | nil => rfl
  | cons m rest ih =>
    rw [List.mapM_cons, memberText, List.filter_cons]
    split
    · rw [entryTexts, ih]
      generalize rest.mapM (p.memberText table) = texts
      cases m.memberKey? with
      | error f => rfl
      | ok key => cases key with
        | none => cases texts <;> rfl
        | some key => cases m.pairValue? with
          | none => cases texts <;> rfl
          | some v =>
            dsimp only [bind, Except.bind]
            cases p.entryText table v.unwrap with
            | error f => rfl
            | ok text => cases texts <;> cases text <;> rfl
    · rw [ih]
      generalize rest.mapM (p.memberText table) = texts
      cases texts <;> rfl

/-- Names and lists stand for no text. -/
theorem entryText_eq_none {table entry : Site} (hliteral : entry.isStringLiteral = false)
    (hcall : entry.hasKind .callExpression = false) : p.entryText table entry = .ok none := by
  rw [entryText, hliteral, hcall]
  rfl

theorem entryText_of_array {table entry : Site} (harray : entry.hasKind .array = true) :
    p.entryText table entry = .ok none := by
  refine entryText_eq_none ?_ (Site.hasKind_ne harray (by decide))
  rw [Site.isStringLiteral, Site.hasKind_ne harray (by decide), Site.hasKind_ne harray (by decide)]
  rfl

/-- A table is read with the constants of its program. -/
theorem entryText_inside (table entry : Site) (n : Node) :
    p.entryText (table.inside n) entry = p.entryText table entry := by
  unfold entryText helperText textConstant?
  rw [Site.program_inside]

end Project

/-- **Tables.** The texts of a table are the same with names written out: no name stands for one. -/
theorem Syntax.Site.Abbreviates.tableTexts {p : Project} {o o' : Site} (h : o.Abbreviates Site.ListAlike o') :
    Parallel Eq (p.tableTexts o) (p.tableTexts o') := by
  have c := Site.Aside.correspondence p
  have hmembers : List.Forall₂ (fun m m' => Parallel Eq (p.memberText o m) (p.memberText o' m'))
      o.named o'.named := by
    rw [Site.named, Site.named, List.forall₂_map_left_iff, List.forall₂_map_right_iff]
    refine h.members.imp fun m m' hm => ?_
    rcases hm with rfl | ⟨hm, -⟩ | ⟨⟨hpair, hpair'⟩, hv⟩
    · unfold memberText
      rw [← (h.inside m).hasKind_eq, ← Site.memberKey_eq_of_node (h.inside m).node]
      split
      · refine .same_bind _ fun key _ => ?_
        cases key with
        | none => exact .ok rfl
        | some key =>
          rcases option_rel_cases ((h.inside m).part .value) with ⟨hv, hv'⟩ | ⟨v, v', hv, hv', hvalue⟩
          · rw [Site.pairValue?, Site.pairValue?, hv, hv']
            exact .ok rfl
          · rw [Site.pairValue?, Site.pairValue?, hv, hv']
            have hentry := c.entryText (h.inside m) hvalue.unwrap
            rwa [entryText_inside, entryText_inside] at hentry
      · exact .ok rfl
    · obtain ⟨hpair, v, hv, huses⟩ := h.exists_value hm
      have halone : (o.inside m).hasKind .pair = false :=
        Site.hasKind_ne (s := o.inside m) hm.isAlone (by decide)
      have hname := Site.isNameUse_of_identifier huses.isName
      rw [memberText, halone, memberText, if_pos hpair.1, hpair.2, hv]
      show Parallel Eq (.ok none) (p.entryText o' v.unwrap)
      rw [Site.unwrap_of_isNameUse hname, entryText_eq_none (Site.isStringLiteral_of_isNameUse hname)
        (Site.hasKind_of_isNameUse hname (by decide) (by decide))]
      exact .ok rfl
    · rw [memberText, if_pos hpair.1, hpair.2, memberText, if_pos hpair'.1, hpair'.2]
      rcases option_rel_cases hv with ⟨hv, hv'⟩ | ⟨v, v', hv, hv', hlists⟩
      · rw [hv, hv']
        exact .ok rfl
      · rw [hv, hv']
        show Parallel Eq (p.entryText o v.unwrap) (p.entryText o' v'.unwrap)
        rw [entryText_of_array hlists.isArray, entryText_of_array hlists.alsoArray]
        exact .ok rfl
  rw [tableTexts_eq, tableTexts_eq]
  refine (Parallel.mapM hmembers fun _ _ hm => hm).map fun texts texts' heq => ?_
  rw [List.forall₂_eq_eq_eq] at heq
  rw [heq]

/-! ### Names that are passed over -/

/-- An object literal with a name alone, where every pair has some other key. -/
structure Syntax.Site.HoldsAlone (o : Site) (key : String) : Prop where
  isObject : o.hasKind .object = true
  alone : ∃ m ∈ o.named, m.isShorthand key = true
  apart : ∀ m ∈ o.named, m.hasKind .pair = true → ∃ k, m.memberKey? = .ok k ∧ k ≠ some key

namespace Syntax.Site.HoldsAlone

variable {p : Project} {o m s : Site} {key : String}

theorem propertyValue (h : o.HoldsAlone key) : o.propertyValue? key = .ok none := by
  rw [Site.propertyValue?, if_pos h.isObject]
  refine firstSome_eq_none fun pair hpair => ?_
  obtain ⟨hmem, hkind⟩ := List.mem_filter.1 hpair
  obtain ⟨k, hk, hne⟩ := h.apart pair hmem hkind
  rw [hk]
  show (if (k == some key) = true then _ else _) = _
  rw [beq_eq_false_iff_ne.2 hne]
  rfl

theorem memberValue (h : o.HoldsAlone key) :
    ∃ m, m.isShorthand key = true ∧ o.memberValue? key = .ok (some m) := by
  have hfound : (o.named.find? (·.isShorthand key)).isSome = true := List.find?_isSome.2 h.alone
  obtain ⟨m, hm⟩ := Option.isSome_iff_exists.1 hfound
  have halone := List.find?_some hm
  refine ⟨m, halone, ?_⟩
  rw [memberValue?, h.propertyValue, if_pos h.isObject, hm]
  rfl

/-- References pass over it. -/
theorem denoted (h : o.HoldsAlone key) (hs : p.RefersInto s o key) : p.denoted? s = .ok none := by
  rw [hs.denoted_eq, h.propertyValue]
  rfl

/-- It is no key. -/
theorem keys (h : o.HoldsAlone key) {keys : List String} (hkeys : o.keys = .ok keys) : key ∉ keys := by
  obtain ⟨pairs, hpairs, hkeys⟩ := bind_eq_ok.1 hkeys
  obtain ⟨found, hfound, hpairs⟩ := bind_eq_ok.1 hpairs
  cases pure_eq_ok.1 hkeys
  cases pure_eq_ok.1 hpairs
  intro hmem
  obtain ⟨⟨_, pair⟩, hentry, rfl⟩ := List.mem_map.1 hmem
  obtain ⟨_, hentry, rfl⟩ := List.mem_filterMap.1 hentry
  obtain ⟨m, hm, hstep⟩ := (mem_mapM_iff hfound).1 hentry
  obtain ⟨k, hk, hstep⟩ := bind_eq_ok.1 hstep
  obtain ⟨hmem, hkind⟩ := List.mem_filter.1 hm
  obtain ⟨k', hk', hne⟩ := h.apart m hmem hkind
  obtain rfl : k = k' := Except.ok.inj (hk.symm.trans hk')
  obtain ⟨_, rfl, hpair⟩ := Option.map_eq_some_iff.1 (pure_eq_ok.1 hstep)
  cases hpair
  exact hne rfl

/-- It is none of the fields, with a value or without. -/
theorem fields (h : o.HoldsAlone key) {fields : Fields} (hfields : p.evaluateObject o = .ok fields) :
    key ∉ keysOf fields.values ∧ ∀ e ∈ fields.failures, e.1 ≠ key := by
  unfold evaluateObject fieldsOf at hfields
  refine foldlM_preserves
    (P := fun fields => key ∉ keysOf fields.values ∧ ∀ e ∈ fields.failures, e.1 ≠ key) hfields
    ⟨List.not_mem_nil, nofun⟩ fun pair hpair fields next hstep hinv => ?_
  obtain ⟨hmem, hkind⟩ := List.mem_filter.1 hpair
  obtain ⟨k, hk, hne⟩ := h.apart pair hmem hkind
  rw [hk] at hstep
  dsimp only [bind, Except.bind] at hstep
  split at hstep
  · next =>
    obtain ⟨o, ho, hstep⟩ := bind_eq_ok.1 hstep
    have hne : key ≠ _ := fun heq => hne (heq ▸ rfl)
    cases o with
    | ok value =>
      cases pure_eq_ok.1 hstep
      exact ⟨fun hmem => (mem_keysOf_assign.1 hmem).elim hne hinv.1, hinv.2⟩
    | error f =>
      cases pure_eq_ok.1 hstep
      refine ⟨hinv.1, fun e he => (List.mem_append.1 he).elim (hinv.2 e) fun he => ?_⟩
      rw [List.mem_singleton.1 he]
      exact hne.symm
  · cases pure_eq_ok.1 hstep
    exact hinv

/-- A call that is given the object stands for one without it. -/
theorem foldCall (h : o.HoldsAlone key) {call : Site} {v : Value}
    (hcall : call.firstArgument?.map Site.unwrap = some o) (hv : p.foldCall call = .ok v) :
    ∃ fields, v = .record fields ∧ key ∉ keysOf fields := by
  unfold Project.foldCall at hv
  rw [hcall, Option.filter_some, if_pos h.isObject] at hv
  obtain ⟨found, hfound, hv⟩ := bind_eq_ok.1 hv
  obtain ⟨hvalues, hfailures⟩ := h.fields hfound
  refine ⟨_, (pure_eq_ok.1 hv).symm, ?_⟩
  refine List.foldlRecOn (motive := fun fields => key ∉ keysOf fields) found.failures _ hvalues
    fun fields hfields e he => ?_
  obtain ⟨k, v, f⟩ := e
  dsimp only
  cases emptyCollection? v with
  | none => exact hfields
  | some c => exact fun hmem => (mem_keysOf_assign.1 hmem).elim (hfailures _ he).symm hfields

theorem optionsExpression (hm : m.hasKind .shorthandPropertyIdentifier = true) :
    p.optionsExpression m = .ok m := by
  have hunwrap := unwrap_eq_self hm rfl
  have hfunction : m.unwrap.isFunction = false := by rw [hunwrap, isFunction, hasKind_iff.1 hm]; rfl
  rw [optionsExpression_eq_unwrap hfunction, hunwrap]
  · rw [hunwrap, hasKind_ne hm (by decide)]
  · rw [hunwrap, hasKind_ne hm (by decide)]

/-- Options that are a name alone are none. -/
theorem matchOptions (hm : m.hasKind .shorthandPropertyIdentifier = true) :
    ∃ f, p.matchOptions m = .ok (.error f) := by
  have hnone : ∀ idiom ∈ Project.idioms, idiom p m = .ok none := by
    refine List.forall_mem_cons.2 ⟨?_, List.forall_mem_cons.2 ⟨?_, ?_⟩⟩
    · rw [literalList, hasKind_ne hm (by decide)]
      rfl
    · rw [objectList, hasKind_ne hm (by decide)]
      rfl
    · exact idioms_of_no_call (hasKind_ne hm (by decide))
  refine ⟨.unsupportedOptions m.typeName, ?_⟩
  rw [Project.matchOptions, optionsExpression hm]
  show p.firstChoices m _ Project.idioms = _
  generalize Project.idioms = idioms at hnone
  induction idioms with
  | nil => rfl
  | cons idiom rest ih =>
    obtain ⟨hfirst, hrest⟩ := List.forall_mem_cons.1 hnone
    rw [firstChoices_skip hfirst]
    exact ih hrest

theorem choicesOf (h : o.HoldsAlone "options") : p.choicesOf o = .ok .none := by
  obtain ⟨m, hm, hoptions⟩ := h.memberValue
  obtain ⟨f, hf⟩ := matchOptions (p := p) (Bool.and_eq_true_iff.1 hm).1
  rw [Project.choicesOf, hoptions]
  dsimp only [bind, Except.bind]
  rw [hf]
  rfl

theorem defaultMarker (h : o.HoldsAlone "options") : p.defaultMarker? o = .ok none := by
  obtain ⟨m, hm, hoptions⟩ := h.memberValue
  have hm := (Bool.and_eq_true_iff.1 hm).1
  rw [defaultMarker_eq, hoptions]
  dsimp only [bind, Except.bind]
  rw [markerIn?, optionsExpression hm]
  dsimp only [bind, Except.bind]
  rw [hasKind_ne hm (by decide), isMethodCall_eq_false (hasKind_ne hm (by decide))]
  rfl

end Syntax.Site.HoldsAlone

/-! ### Both literals -/

namespace Project

/-- What comes to the same with two object literals. -/
structure KeepsMeaning (p : Project) (o o' : Site) : Prop where
  /-- Accesses that come to a member. -/
  evaluate {b b' : Bindings} {s s' : Site} {key : String} : p.LooksUp b s o key → p.LooksUp b' s' o' key →
    o.memberValue? key ≠ .ok none → Parallel (Outcome.Alike Eq) (p.evaluate s b) (p.evaluate s' b')
  /-- Options, in a list or in a callback, and whether they are marked. -/
  option {b b' : Bindings} : Bindings.Alike Site.Aside b b' →
    Parallel (Outcome.Alike Eq) (p.optionOf b o) (p.optionOf b' o')
  marked : Parallel Eq (p.markedValue? o) (p.markedValue? o')
  /-- Settings whose options and default are no names alone. -/
  setting (name : String) : o.WritesOut "options" → o.WritesOut "default" →
    Parallel (Outcome.Alike Eq) (p.extractSetting name o) (p.extractSetting name o')
  choices : o.WritesOut "options" → Parallel Eq (p.choicesOf o) (p.choicesOf o')
  marker : o.WritesOut "options" → Parallel Eq (p.defaultMarker? o) (p.defaultMarker? o')
  /-- References to members that are no names alone. -/
  reference {s s' : Site} {key : String} :
    o.WritesOut key → p.RefersInto s o key → p.RefersInto s' o' key →
    Parallel (Option.Rel fun t t' => t.Aside t' ∨ t.ListAlike t') (p.denoted? s) (p.denoted? s')
  /-- The texts of tables. -/
  texts : Parallel Eq (p.tableTexts o) (p.tableTexts o')

/-- What passes over a name that is alone in an object literal. -/
structure Overlooks (p : Project) (o : Site) (key : String) : Prop where
  reference {s : Site} : p.RefersInto s o key → p.denoted? s = .ok none
  keys {keys : List String} : o.keys = .ok keys → key ∉ keys
  call {call : Site} {v : Value} : call.firstArgument?.map Site.unwrap = some o → p.foldCall call = .ok v →
    ∃ fields, v = .record fields ∧ key ∉ keysOf fields
  options : key = "options" → p.choicesOf o = .ok .none ∧ p.defaultMarker? o = .ok none

/-- What finds a name that is written out in an object literal. -/
structure LeadsOn (p : Project) (o : Site) (key : String) (name : Site) : Prop where
  uses : o.Uses key name
  member : o.memberValue? key = .ok (some name)
  reference {s : Site} : p.RefersInto s o key →
    p.denoted? s = p.chain (p.objectWithin (deepestChain - 1)) (longestChain - 1) name

end Project

/-- A name that is alone in the first literal only is written out in the second one. -/
theorem Syntax.Site.Abbreviates.leadsOn {p : Project} {Options : Site → Site → Prop} {o o' : Site}
    {key : String} (h : o.Abbreviates Options o') (halone : o.HoldsAlone key)
    (hout : o'.WritesOut key) : ∃ name, p.LeadsOn o' key name := by
  have hfound : ∃ v, o'.Uses key v ∧ o'.propertyValue? key = .ok (some v) := by
    rcases h.propertyValue_cases key with halike | ⟨-, hfound⟩
    · -- if no pair had the key, the name would be alone in both
      rw [halone.propertyValue] at halike
      generalize hnone : o'.propertyValue? key = x' at halike
      cases halike with
      | ok hv =>
        cases hv
        have hboth := option_rel_isSome (h.alone hnone)
        rw [List.find?_eq_none.2 fun m hm => Bool.eq_false_iff.1 (hout m hm),
          show (o.named.find? (·.isShorthand key)).isSome = true from List.find?_isSome.2 halone.alone] at hboth
        cases hboth
    · exact hfound
  obtain ⟨v, huses, hv⟩ := hfound
  refine ⟨v, huses, ?_, fun hs => ?_⟩
  · rw [Site.memberValue?, hv]
    rfl
  · rw [hs.denoted_eq, hv]
    show p.chain _ _ v.unwrap = _
    rw [Site.unwrap_of_isNameUse (Site.isNameUse_of_identifier huses.isName)]

/-- **Names alone.** With names alone in an object literal and with them written out, members mean the same;
but references, keys, calls and options pass over a name that is alone. -/
theorem names_alone_written_out {p : Project} {o o' : Site} (h : o.Abbreviates Site.ListAlike o') :
    p.KeepsMeaning o o' ∧ ∀ key, o.HoldsAlone key → p.Overlooks o key ∧
      (o'.WritesOut key → ∃ name, p.LeadsOn o' key name) := by
  refine ⟨⟨h.evaluate, h.optionOf, h.markedValue, fun name ho hd => h.extractSetting ho hd name,
    fun ho => (h.shown ho).choices, fun ho => (h.shown ho).marker, h.denoted, h.tableTexts⟩,
    fun key halone => ⟨⟨halone.denoted, halone.keys, halone.foldCall, ?_⟩, h.leadsOn halone⟩⟩
  rintro rfl
  exact ⟨halone.choicesOf, halone.defaultMarker⟩

/-! ### A name in two spellings -/

/-- A name that is a member by itself. -/
def nameAlone (name : String) : Node := .leaf .shorthandPropertyIdentifier none " " name

/-- The same name as a pair. -/
def nameWrittenOut (name : String) : Node :=
  .tree .pair none
    [.leaf .propertyIdentifier (some .key) " " name, .token none "" ":",
     .leaf .identifier (some .value) " " name]

/-- An object literal with one member before others. -/
def objectAfter (member : Node) (rest : List Node) : Node :=
  .tree .object none (.token none "" "\x7b" :: member :: rest ++ [.token none " " "\x7d"])

/-- A variable, and object literals with its name alone and written out. -/
def spelledProgram (name : String) (value : Node) (rest : List Node) : Node :=
  .tree .program none
    [constantNode "" name value, probeNode (objectAfter (nameAlone name) rest),
     probeNode (objectAfter (nameWrittenOut name) rest)]

/-- The object literals of such a program. -/
def spelledAlone (name : String) (value : Node) (rest : List Node) : Site :=
  probedSite (spelledProgram name value rest) (objectAfter (nameAlone name) rest)

def spelledOut (name : String) (value : Node) (rest : List Node) : Site :=
  probedSite (spelledProgram name value rest) (objectAfter (nameWrittenOut name) rest)

/-- A comma and a label. -/
def labelledMember (label : String) : List Node :=
  [.token none "" ",", .tree .pair none
    [.leaf .propertyIdentifier (some .key) " " "label", .token none "" ":",
     .leaf .string (some .value) " " ("\"" ++ label ++ "\"")]]

theorem abbreviates_nameAlone (name : String) : (nameAlone name).Abbreviates (nameWrittenOut name) :=
  ⟨rfl, rfl, ⟨_, rfl, rfl, rfl⟩, ⟨_, rfl, rfl, rfl⟩⟩

theorem beyond_spelled (name : String) (value : Node) (rest : List Node) :
    Beyond (spelledAlone name value rest).above (spelledOut name value rest).above :=
  .apart rfl rfl nofun (.apart rfl rfl nofun (.apart rfl rfl nofun (.same _)))

/-- The number `1`, as the value of a variable. -/
def oneLiteral : Node := .leaf .number none " " "1"

set_option maxRecDepth 4000 in
theorem option_value_written_out :
    parse .plain ("const value = 1;\nprobe(\x7b value, label: \"a\" \x7d);\n" ++
      "probe(\x7b value: value, label: \"a\" \x7d);") =
      spelledProgram "value" oneLiteral (labelledMember "a") ∧
    ∃ o o', firstArguments (spelledProgram "value" oneLiteral (labelledMember "a")) = [o, o'] ∧
      o.Abbreviates Site.ListAlike o' ∧ bareProject.KeepsMeaning o o' ∧
      bareProject.optionOf [] o = .ok (.ok (.integer 1, some "a")) ∧
      bareProject.Overlooks o "value" ∧ ∃ name, bareProject.LeadsOn o' "value" name := by
  have h : (spelledAlone "value" oneLiteral (labelledMember "a")).Abbreviates
      Site.ListAlike (spelledOut "value" oneLiteral (labelledMember "a")) :=
    ⟨rfl, beyond_spelled _ _ _, nofun, rfl, rfl,
      .cons (.inr (.inl ⟨abbreviates_nameAlone "value", rfl⟩)) (.cons (.inl rfl) .nil)⟩
  have halone : (spelledAlone "value" oneLiteral (labelledMember "a")).HoldsAlone "value" := by
    refine ⟨rfl, ⟨_, List.mem_cons_self, rfl⟩, List.forall_mem_cons.2 ⟨nofun, ?_⟩⟩
    exact List.forall_mem_singleton.2 fun _ => ⟨some "label", rfl, by decide⟩
  obtain ⟨hkeeps, hspelled⟩ := names_alone_written_out (p := bareProject) h
  obtain ⟨hoverlooks, hleads⟩ := hspelled "value" halone
  exact ⟨by decide +kernel, _, _, rfl, h, hkeeps, rfl, hoverlooks, hleads (by decide)⟩

set_option maxRecDepth 4000 in
theorem options_alone_lost :
    parse .plain "const options = [\"a\"];\nprobe(\x7b options \x7d);\nprobe(\x7b options: options \x7d);" =
      spelledProgram "options" textsLiteral [] ∧
    ∃ o o', firstArguments (spelledProgram "options" textsLiteral []) = [o, o'] ∧
      o.Abbreviates Site.Never o' ∧ bareProject.choicesOf o = .ok .none ∧
      bareProject.choicesOf o' = .ok ⟨[.text "a"], []⟩ :=
  ⟨by decide +kernel, spelledAlone "options" textsLiteral [], spelledOut "options" textsLiteral [], rfl,
    ⟨rfl, beyond_spelled _ _ _, nofun, rfl, rfl,
      .cons (.inr (.inl ⟨abbreviates_nameAlone "options", rfl⟩)) .nil⟩, rfl, rfl⟩

end SettingsHarvest
