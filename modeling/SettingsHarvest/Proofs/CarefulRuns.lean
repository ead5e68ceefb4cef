import SettingsHarvest.Proofs.Parallel
import SettingsHarvest.Proofs.Running

/-! What careful runs have in common with evaluation.

Evaluation goes by the source: it follows names and members to the literals they denote, and reads from
those what is written there. Where a careful run comes to something, it comes to the same: to what the
denoted literal comes to (`comesTo_of_denoted`), under a key to what the entry comes to that evaluation
finds (`get_of_memberValue`, `get_of_elementAt`), and so to the value that evaluation has, for every form
of expression (`eq_constant_of_evaluate`). The bindings of a callback may stand for less than the
parameters that a run has; they may not stand for anything else (`Matches`). -/
namespace SettingsHarvest
open Syntax Project

theorem heed_bind_eq_some {α : Type} {condition : Bool} {f : Unit → Option α} {a : α} :
    (heed true condition >>= f) = some a ↔ condition = true ∧ f () = some a := by
  cases condition <;> simp [heed]

theorem bind_eq_some {α β : Type} {x : Option α} {f : α → Option β} {b : β} :
    (x >>= f) = some b ↔ ∃ a, x = some a ∧ f a = some b := Option.bind_eq_some_iff

/-! ### Objects -/

section Objects

variable {member value literal : Site} {members : List Site} {key : String} {recur : Runner}
  {scope fields : Scope} {writes : List (Option (String × ScriptValue))} {d : ScriptValue}

theorem isComputed_of_isOpen (h : member.isOpen = true) (hspread : member.hasKind .spreadElement = false) :
    member.isComputed = true := by
  unfold Site.isOpen at h
  split at h
  · exact h
  · exact h
  · next hkind => cases hspread.symm.trans (Site.hasKind_iff.2 hkind)
  · cases h

theorem exists_computed (h : member.isComputed = true) :
    ∃ name, member.keySite? = some name ∧ name.hasKind .computedPropertyName = true := by
  cases hkey : member.keySite? with
  | none => simp [Site.isComputed, hkey] at h
  | some name => exact ⟨name, rfl, by simpa [Site.isComputed, hkey] using h⟩

theorem writtenKey_of_isComputed (h : member.isComputed = true) : member.writtenKey? = none := by
  obtain ⟨name, hname, hkind⟩ := exists_computed h
  simp only [Site.writtenKey?, hname, Site.kind_eq_of_hasKind hkind]

/-- No key is known that an open member writes. -/
theorem written_of_isOpen (h : member.isOpen = true) : member.written? = none := by
  unfold Site.written?
  split
  · next hkind =>
    have hspread : member.hasKind .spreadElement = false :=
      Site.hasKind_ne (Site.hasKind_iff.2 hkind) (by decide)
    rw [writtenKey_of_isComputed (isComputed_of_isOpen h hspread)]
    rfl
  · next hkind =>
    have hspread : member.hasKind .spreadElement = false :=
      Site.hasKind_ne (Site.hasKind_iff.2 hkind) (by decide)
    rw [writtenKey_of_isComputed (isComputed_of_isOpen h hspread)]
    rfl
  · next hkind =>
    simp [Site.isOpen, hkind] at h
  · rfl

/-- Members without the key leave the field of a key as it is. -/
theorem lookup_foldl_writeField
    (h : List.Forall₂ (fun m w => runMember recur scope m = some w) members writes)
    (hlegible : members.all Site.isLegible = true) (hfree : key ∉ Site.writtenKeys members) :
    (writes.foldl writeField fields).lookup key = fields.lookup key := by
  induction h generalizing fields with
  | nil => rfl
  | @cons m w rest others hhere hrest ih =>
    obtain ⟨hm, hlegible⟩ := Bool.and_eq_true_iff.1 (List.all_cons ▸ hlegible)
    cases hwritten : m.written? with
    | none => simp [Site.isLegible, hwritten] at hm
    | some written =>
      have hkeys : Site.writtenKeys (m :: rest) = written.1 :: Site.writtenKeys rest := by
        simp [Site.writtenKeys, hwritten]
      rw [hkeys, List.mem_cons, not_or] at hfree
      obtain ⟨d, rfl⟩ : ∃ d, w = some (written.1, d) := by
        obtain ⟨k, value?⟩ := written
        simp only [runMember, hwritten] at hhere
        cases value? with
        | none => exact ⟨_, (Option.some.inj hhere).symm⟩
        | some value =>
          obtain ⟨d, -, hd⟩ := bind_eq_some.1 hhere
          exact ⟨d, (Option.some.inj hd).symm⟩
      rw [List.foldl_cons, ih hlegible hfree.2, writeField, lookup_assign, if_neg hfree.1]

/-- Of members that each write a key of their own, each has its value in the end. -/
theorem lookup_of_member (h : List.Forall₂ (fun m w => runMember recur scope m = some w) members writes)
    (horderly : Site.areOrderly members = true) (hmember : member ∈ members)
    (hwritten : member.written? = some (key, some value)) :
    ∃ d, (writes.foldl writeField fields).lookup key = some d ∧ recur scope value = some d := by
  induction h generalizing fields with
  | nil => cases hmember
  | @cons m w rest others hhere hrest ih =>
    obtain ⟨hlegible, hnodup⟩ := Bool.and_eq_true_iff.1 horderly
    replace hlegible := (Bool.and_eq_true_iff.1 (List.all_cons ▸ hlegible)).2
    replace hnodup := of_decide_eq_true hnodup
    rcases List.mem_cons.1 hmember with rfl | hmember
    · simp only [runMember, hwritten] at hhere
      obtain ⟨d, hd, hw⟩ := bind_eq_some.1 hhere
      cases hw
      have hfree : key ∉ Site.writtenKeys rest := by
        simp only [Site.writtenKeys, List.filterMap_cons, hwritten, Option.map_some,
          List.nodup_cons] at hnodup
        exact hnodup.1
      refine ⟨d, ?_, hd⟩
      rw [List.foldl_cons, lookup_foldl_writeField hrest hlegible hfree, writeField, lookup_assign,
        if_pos rfl]
    · have hkeys : (Site.writtenKeys rest).Nodup :=
        hnodup.sublist ((List.sublist_cons_self m rest).filterMap _)
      exact ih (Bool.and_eq_true_iff.2 ⟨hlegible, decide_eq_true hkeys⟩) hmember

/-- What open members in front write is not known, and there was nothing before. -/
theorem lookup_of_orderly (h : List.Forall₂ (fun m w => runMember recur scope m = some w) members writes)
    (horderly : Site.areOrderly (members.dropWhile Site.isOpen) = true) (hmember : member ∈ members)
    (hwritten : member.written? = some (key, some value)) :
    ∃ d, (writes.foldl writeField []).lookup key = some d ∧ recur scope value = some d := by
  induction h with
  | nil => cases hmember
  | @cons m w rest others hhere hrest ih =>
    by_cases hopen : m.isOpen = true
    · rw [List.dropWhile_cons_of_pos hopen] at horderly
      have hnone := written_of_isOpen hopen
      simp only [runMember, hnone] at hhere
      cases hhere
      rcases List.mem_cons.1 hmember with rfl | hmember
      · cases hnone.symm.trans hwritten
      · exact ih horderly hmember
    · rw [List.dropWhile_cons_of_neg hopen] at horderly
      exact lookup_of_member (.cons hhere hrest) horderly hmember hwritten

/-- A computed key is not one that a member is spelled with. -/
theorem memberKey_of_isComputed (h : member.isComputed = true) : member.memberKey? = .ok none := by
  obtain ⟨name, hname, hkind⟩ := exists_computed h
  unfold Site.keySite? at hname
  simp only [Site.memberKey?, hname, Site.kind_eq_of_hasKind hkind]

theorem mem_dropWhile_isOpen (hmember : member ∈ members) (hclosed : member.isOpen = false) :
    member ∈ members.dropWhile Site.isOpen := by
  induction members with
  | nil => cases hmember
  | cons m rest ih =>
    by_cases hopen : m.isOpen = true
    · rw [List.dropWhile_cons_of_pos hopen]
      rcases List.mem_cons.1 hmember with rfl | hmember
      · cases hclosed.symm.trans hopen
      · exact ih hmember
    · rw [List.dropWhile_cons_of_neg hopen]
      exact hmember

/-- A pair that writes the key it is spelled with. -/
theorem written_of_pair (hpair : member.hasKind .pair = true) (hlegible : member.isLegible = true) :
    ∃ key, member.written? = some (key, member.pairValue?) ∧ member.memberKey? = .ok (some key) := by
  unfold Site.isLegible at hlegible
  split at hlegible
  · next key value? hwritten =>
    have hshape := hwritten
    simp only [Site.written?, Site.kind_eq_of_hasKind hpair, Option.map_eq_some_iff] at hshape
    obtain ⟨_, -, heq⟩ := hshape
    rw [← (Prod.mk.inj heq).2] at hwritten
    have hspelled := eq_of_beq hlegible
    rw [Site.spelledKey?, if_neg (by rw [Site.hasKind_ne hpair (by decide)]; decide)] at hspelled
    refine ⟨key, hwritten, ?_⟩
    cases hkey : member.memberKey? with
    | error f =>
      rw [hkey] at hspelled
      cases hspelled
    | ok key? =>
      rw [hkey] at hspelled
      exact congrArg Except.ok hspelled
  · cases hlegible

/-- A shorthand that writes the name it is spelled with. -/
theorem written_of_shorthand (hkind : member.hasKind .shorthandPropertyIdentifier = true)
    (hlegible : member.isLegible = true) : member.written? = some (member.text, some member) := by
  unfold Site.isLegible at hlegible
  split at hlegible
  · next key value? hwritten =>
    have hshape := hwritten
    simp only [Site.written?, Site.kind_eq_of_hasKind hkind, Option.map_eq_some_iff] at hshape
    obtain ⟨_, -, heq⟩ := hshape
    have hspelled := eq_of_beq hlegible
    rw [Site.spelledKey?, if_pos hkind] at hspelled
    rw [hwritten, Option.some.inj hspelled, (Prod.mk.inj heq).2]
  · cases hlegible

/-- In an orderly literal, the entry that evaluation finds under a key is written under the key. -/
theorem exists_member_of_memberValue (h : literal.memberValue? key = .ok (some value))
    (horderly : literal.isOrderly = true) :
    ∃ member ∈ literal.named, member.written? = some (key, some value) := by
  have hlegible {member : Site} (hmember : member ∈ literal.named) (hclosed : member.isOpen = false) :
      member.isLegible = true :=
    List.all_eq_true.1 (Bool.and_eq_true_iff.1 horderly).1 member (mem_dropWhile_isOpen hmember hclosed)
  obtain ⟨found, hfound, h⟩ := bind_eq_ok.1 h
  cases found with
  | some v =>
    cases pure_eq_ok.1 h
    obtain ⟨-, member, hmember, hpair, hkey, hvalue⟩ := exists_pair_of_propertyValue hfound
    have hclosed : member.isOpen = false := by
      refine Bool.eq_false_iff.2 fun hopen => ?_
      have hcomputed := isComputed_of_isOpen hopen (Site.hasKind_ne hpair (by decide))
      cases hkey.symm.trans (memberKey_of_isComputed hcomputed)
    obtain ⟨k, hwritten, hk⟩ := written_of_pair hpair (hlegible hmember hclosed)
    cases hkey.symm.trans hk
    exact ⟨member, hmember, hvalue ▸ hwritten⟩
  | none =>
    dsimp only at h
    split at h
    · have hfind := pure_eq_ok.1 h
      have hmatch := List.find?_some hfind
      obtain ⟨hshorthand, htext⟩ := Bool.and_eq_true_iff.1 hmatch
      have hmember := List.mem_of_find?_eq_some hfind
      have hclosed : value.isOpen = false := by
        simp [Site.isOpen, Site.kind_eq_of_hasKind hshorthand]
      have hwritten := written_of_shorthand hshorthand (hlegible hmember hclosed)
      rw [eq_of_beq htext] at hwritten
      exact ⟨value, hmember, hwritten⟩
    · cases pure_eq_ok.1 h

/-- The pairs of a table, as evaluation lists them, and the fields that they write. -/
theorem exists_fields (fields : Scope) {pairs : List (Option (String × Site))}
    (hwrites : List.Forall₂ (fun m w => runMember recur scope m = some w) members writes)
    (hpairs : List.Forall₂ (fun m pair => (do return (← m.memberKey?).map fun key => (key, m) :
      Attempt (Option (String × Site))) = .ok pair) members pairs)
    (hmembers : ∀ m ∈ members, m.hasKind .pair = true ∧ m.pairValue?.isSome = true)
    (horderly : Site.areOrderly members = true)
    (hfree : ∀ key ∈ Site.writtenKeys members, key ∉ keysOf fields) :
    ∃ new, writes.foldl writeField fields = fields ++ new ∧
      List.Forall₂ (fun pair field => field.1 = pair.1 ∧
        ∃ value, pair.2.pairValue? = some value ∧ recur scope value = some field.2)
        (pairs.filterMap id) new := by
  induction hwrites generalizing fields pairs with
  | nil =>
    cases hpairs
    exact ⟨[], (List.append_nil fields).symm, .nil⟩
  | @cons m w rest others hhere hrest ih =>
    cases hpairs with
    | @cons _ pair _ morePairs hpair hpairs =>
      obtain ⟨hlegible, hnodup⟩ := Bool.and_eq_true_iff.1 horderly
      obtain ⟨hm, hlegible⟩ := Bool.and_eq_true_iff.1 (List.all_cons ▸ hlegible)
      obtain ⟨⟨hkind, hvalue⟩, hmembers⟩ := List.forall_mem_cons.1 hmembers
      obtain ⟨value, hvalue⟩ := Option.isSome_iff_exists.1 hvalue
      obtain ⟨key, hwritten, hkey⟩ := written_of_pair hkind hm
      have hkeys : Site.writtenKeys (m :: rest) = key :: Site.writtenKeys rest := by
        simp [Site.writtenKeys, hwritten]
      replace hnodup := of_decide_eq_true hnodup
      rw [hkeys] at hfree hnodup
      obtain ⟨hkeyFree, hfree⟩ := List.forall_mem_cons.1 hfree
      obtain ⟨hkeyOnce, hnodup⟩ := List.nodup_cons.1 hnodup
      simp only [runMember, hwritten, hvalue] at hhere
      obtain ⟨d, hd, hw⟩ := bind_eq_some.1 hhere
      cases hw
      rw [hkey] at hpair
      cases pure_eq_ok.1 hpair
      have hfree' : ∀ k ∈ Site.writtenKeys rest, k ∉ keysOf (fields ++ [(key, d)]) := by
        intro k hk hmem
        rw [keysOf_append, List.mem_append] at hmem
        rcases hmem with hmem | hmem
        · exact hfree k hk hmem
        · obtain rfl : k = key := List.mem_singleton.1 hmem
          exact hkeyOnce hk
      obtain ⟨new, hnew, hfields⟩ :=
        ih _ hpairs hmembers (Bool.and_eq_true_iff.2 ⟨hlegible, decide_eq_true hnodup⟩) hfree'
      refine ⟨(key, d) :: new, ?_, .cons ⟨rfl, value, hvalue, hd⟩ hfields⟩
      rw [List.foldl_cons, writeField, assign_of_not_mem hkeyFree, hnew, List.append_assoc]
      rfl

end Objects

/-! ### Runs of literals -/

section Literals

variable {p : Project} {s literal entry : Site} {key : String} {steps : Nat} {scope : Scope}
  {d found : ScriptValue}

/-- A run of what is no wrapper takes one step. -/
theorem runWithin_self {k : Kind} (hkind : s.hasKind k = true) (hk : k.isWrapper = false)
    (h : p.runWithin true steps scope s = some d) :
    ∃ fewer, steps = fewer + 1 ∧ p.runForm true (p.runWithin true fewer) scope s = some d := by
  cases steps with
  | zero => cases h
  | succ fewer =>
    rw [Project.runWithin, Site.unwrap_eq_self hkind hk] at h
    exact ⟨fewer, rfl, h⟩

theorem runWithin_unwrap : p.runWithin true steps scope s.unwrap = p.runWithin true steps scope s := by
  cases steps with
  | zero => rfl
  | succ fewer => rw [Project.runWithin, Project.runWithin, Site.unwrap_unwrap]

/-- An object literal comes to an object. -/
theorem runWithin_object (hobject : literal.hasKind .object = true)
    (h : p.runWithin true steps scope literal = some d) : ∃ fewer writes, steps = fewer + 1 ∧
      List.Forall₂ (fun m w => runMember (p.runWithin true fewer) scope m = some w) literal.named writes ∧
      d = .record literal (writes.foldl writeField []) := by
  obtain ⟨fewer, hsteps, hform⟩ := runWithin_self hobject rfl h
  unfold Project.runForm at hform
  rw [Site.kind_eq_of_hasKind hobject] at hform
  obtain ⟨writes, hwrites, hd⟩ := bind_eq_some.1 hform
  exact ⟨fewer, writes, hsteps, forall₂_of_mapM hwrites, (Option.some.inj hd).symm⟩

/-- A careful run reads under a key what the entry comes to that evaluation finds there. -/
theorem get_of_memberValue (hobject : literal.hasKind .object = true)
    (hrun : p.runWithin true steps scope literal = some d)
    (hentry : literal.memberValue? key = .ok (some entry)) (hget : d.get true key = some found) :
    ∃ fewer, p.runWithin true fewer scope entry = some found := by
  obtain ⟨fewer, writes, -, hwrites, rfl⟩ := runWithin_object hobject hrun
  rw [ScriptValue.get, heed_bind_eq_some] at hget
  obtain ⟨horderly, hget⟩ := hget
  obtain ⟨member, hmember, hwritten⟩ := exists_member_of_memberValue hentry horderly
  obtain ⟨field, hlookup, hfield⟩ := lookup_of_orderly hwrites horderly hmember hwritten
  rw [hlookup] at hget
  cases Option.some.inj hget
  exact ⟨fewer, hfield⟩

/-- The keys of a table, with what the values under them come to. -/
theorem fields_of_table {pairs : List (String × Site)} {fields : Scope}
    (hobject : literal.hasKind .object = true)
    (hrun : p.runWithin true steps scope literal = some (.record literal fields))
    (htable : literal.isTable = true) (hpairs : literal.pairs = .ok pairs) :
    ∃ fewer, List.Forall₂ (fun pair field => field.1 = pair.1 ∧
      ∃ value, pair.2.pairValue? = some value ∧ p.runWithin true fewer scope value = some field.2)
      pairs fields := by
  obtain ⟨fewer, writes, -, hwrites, hd⟩ := runWithin_object hobject hrun
  obtain ⟨-, rfl⟩ := ScriptValue.record.inj hd
  obtain ⟨hmembers, -⟩ := Bool.and_eq_true_iff.1 htable
  obtain ⟨hmembers, horderly⟩ := Bool.and_eq_true_iff.1 hmembers
  have hmembers (m : Site) (hm : m ∈ literal.named) :
      m.hasKind .pair = true ∧ m.pairValue?.isSome = true :=
    Bool.and_eq_true_iff.1 (List.all_eq_true.1 hmembers m hm)
  obtain ⟨found, hfound, hpairs⟩ := bind_eq_ok.1 hpairs
  rw [List.filter_eq_self.2 fun m hm => (hmembers m hm).1] at hfound
  obtain ⟨new, hnew, hfields⟩ := exists_fields [] hwrites (forall₂_of_mapM_eq_ok hfound)
    hmembers horderly fun key _ => List.not_mem_nil
  rw [hnew, List.nil_append, ← pure_eq_ok.1 hpairs]
  exact ⟨fewer, hfields⟩

end Literals

/-! ### Names and members -/

section References

variable {p : Project} {s t base value : Site} {key : String} {steps : Nat} {scope : Scope}
  {recur : Runner} {d found : ScriptValue} {object? : Site → Attempt (Option Site)}

/-- A careful run of an expression comes to a value, in some scope. -/
def Project.ComesTo (p : Project) (s : Site) (d : ScriptValue) : Prop :=
  ∃ steps scope, p.runWithin true steps scope s = some d

/-- What a name is bound to stands for a value. -/
def Bound.Stands (p : Project) : Bound → ScriptValue → Prop
  | .value v, d => d = .constant v
  | .expression s, d => p.ComesTo s d

theorem comesTo_unwrap : p.ComesTo s.unwrap d ↔ p.ComesTo s d := by
  simp only [Project.ComesTo, runWithin_unwrap]

/-- A name with an initializer is no parameter, and has the value of the initializer. -/
theorem runName_of_initializer (hrun : p.runName true recur scope s = some d)
    (hvalue : p.initializer? s = .ok (some value)) : recur [] value = some d := by
  obtain ⟨declared, hdeclared, hvalue⟩ := bind_eq_ok.1 hvalue
  rw [Project.runName, hdeclared] at hrun
  cases declared with
  | none =>
    obtain ⟨hunknown, -⟩ := heed_bind_eq_some.1 hrun
    have hnone := (Bool.and_eq_true_iff.1 hunknown).2
    rw [pure_eq_ok.1 hvalue] at hnone
    cases hnone
  | some declaration =>
    have hvalue := pure_eq_ok.1 hvalue
    change (if _ then _ else _) = _ at hrun
    split at hrun
    · next hparameter =>
      simp only [Declaration.value?, hparameter] at hvalue
      cases hvalue
    · rw [if_neg Bool.false_ne_true, heed_bind_eq_some, hvalue] at hrun
      exact hrun.2

/-- A parameter of a name is what a careful run takes for it. -/
theorem runName_of_lookup (hrun : p.runName true recur scope s = some d)
    (hlookup : scope.lookup s.text = some found) : d = found := by
  obtain ⟨declared, -, hrun⟩ := bind_eq_some.1 hrun
  cases declared with
  | none =>
    obtain ⟨hunknown, -⟩ := heed_bind_eq_some.1 hrun
    rw [hlookup] at hunknown
    cases hunknown
  | some declaration =>
    change (if _ then _ else _) = _ at hrun
    split at hrun
    · rw [if_pos rfl, hlookup] at hrun
      exact (Option.some.inj hrun).symm
    · rw [if_neg Bool.false_ne_true, heed_bind_eq_some, hlookup] at hrun
      cases hrun.1

/-- A careful access reads from its base under the key that the source spells. -/
theorem runAccess_eq_some {key? : Option String}
    (h : p.runAccess true recur scope base (some key) key? = some d) :
    p.namesEnum base.unwrap key = false ∧
      ∃ container, recur scope base = some container ∧ container.get true key = some d := by
  obtain ⟨hcareful, h⟩ := heed_bind_eq_some.1 h
  obtain ⟨hkey, henum⟩ := Bool.and_eq_true_iff.1 hcareful
  cases eq_of_beq hkey
  refine ⟨by simpa using henum, bind_eq_some.1 h⟩

theorem runProperty_eq_some (hparts : s.accessParts? = some (base, key))
    (h : p.runProperty true recur scope s = some d) : p.namesEnum base.unwrap key = false ∧
      ∃ container, recur scope base = some container ∧ container.get true key = some d := by
  unfold Site.accessParts? at hparts
  unfold Project.runProperty at h
  split at hparts
  · next hobject hproperty =>
    cases hparts
    rw [hobject, hproperty] at h
    exact runAccess_eq_some h
  · cases hparts

/-- One step along a reference keeps what a careful run comes to, if the objects do that are asked for. -/
theorem comesTo_of_follow (hcomes : p.ComesTo s d) (hfollow : p.follow object? s = .ok (.toward t))
    (hobjects : ∀ base object d, object? base = .ok (some object) → p.ComesTo base d →
      object.hasKind .object = true ∧ p.ComesTo object d) : p.ComesTo t d := by
  obtain ⟨steps, scope, hrun⟩ := hcomes
  unfold Project.follow at hfollow
  split at hfollow
  · next hname =>
    obtain ⟨value, hvalue, rfl⟩ := onward_eq_toward hfollow
    obtain ⟨fewer, -, hform⟩ := runWithin_self hname rfl hrun
    unfold Project.runForm at hform
    rw [Site.kind_eq_of_hasKind hname] at hform
    exact comesTo_unwrap.2 ⟨fewer, [], runName_of_initializer hform hvalue⟩
  · split at hfollow
    · next haccess =>
      split at hfollow
      · cases hfollow
      · next base key hparts =>
        obtain ⟨object, hobject, hfollow⟩ := bind_eq_ok.1 hfollow
        cases object with
        | none => cases hfollow
        | some object =>
          obtain ⟨value, hvalue, rfl⟩ := onward_eq_toward hfollow
          obtain ⟨fewer, -, hform⟩ := runWithin_self haccess rfl hrun
          unfold Project.runForm at hform
          rw [Site.kind_eq_of_hasKind haccess] at hform
          obtain ⟨-, container, hbase, hget⟩ := runProperty_eq_some hparts hform
          obtain ⟨hkind, steps', scope', hobject⟩ :=
            hobjects base object container hobject ⟨_, _, hbase⟩
          have hentry : object.memberValue? key = .ok (some value) := by
            rw [Site.memberValue?, hvalue]
            rfl
          obtain ⟨fewer', hvalue⟩ := get_of_memberValue hkind hobject hentry hget
          exact comesTo_unwrap.2 ⟨fewer', scope', hvalue⟩
    · cases hfollow

/-- What names and members lead to comes to the same in a careful run. -/
theorem comesTo_of_denotedWithin {depth : Nat} (hdenoted : p.denotedWithin depth s = .ok (some t))
    (hcomes : p.ComesTo s d) : p.ComesTo t d := by
  induction depth generalizing s t d with
  | zero => cases hdenoted
  | succ depth ih =>
    rw [denotedWithin_succ] at hdenoted
    rw [← comesTo_unwrap] at hcomes
    generalize longestChain = steps, s.unwrap = start at hdenoted hcomes
    induction steps generalizing start with
    | zero => cases hdenoted
    | succ steps ihsteps =>
      rw [chain_succ] at hdenoted
      obtain ⟨step, hstep, hdenoted⟩ := bind_eq_ok.1 hdenoted
      cases step with
      | ended found =>
        cases hdenoted
        exact follow_ended hstep ▸ hcomes
      | toward next =>
        refine ihsteps next hdenoted (comesTo_of_follow hcomes hstep fun base object d hobject hbase => ?_)
        obtain ⟨hdenoted, hkind⟩ := of_onlyKind hobject
        exact ⟨hkind, ih hdenoted hbase⟩

end References

/-! ### Lists -/

section Lists

variable {p : Project} {list e entry : Site} {key : String} {steps layers : Nat} {scope : Scope}
  {recur : Runner} {d found : ScriptValue} {slots : List (Option Site)} {items : List ScriptValue}
  {pieces : List (Nat × List ScriptValue)}

/-- What is written down between the commas are the named parts. -/
theorem filterMap_places {parts : List Node} {vacant : Bool} :
    (places list vacant parts).filterMap id = (parts.filter Node.isNamedPart).map list.inside := by
  induction parts generalizing vacant with
  | nil => rfl
  | cons part rest ih =>
    rw [places]
    by_cases hnamed : part.isNamedPart = true
    · rw [if_pos hnamed, List.filter_cons_of_pos hnamed, List.map_cons]
      exact congrArg (list.inside part :: ·) ih
    · rw [if_neg hnamed, List.filter_cons_of_neg hnamed]
      split
      · rw [List.filterMap_append, ih]
        cases vacant <;> rfl
      · exact ih

/-- The elements of a list literal, gaps among them, with what they add to the list. -/
def Fills (recur : Runner) (scope : Scope) : List (Option Site) → List (Nat × List ScriptValue) → Prop :=
  List.Forall₂ fun place piece => runElement recur scope place = some piece

/-- A list literal comes to a list. -/
theorem runWithin_array (harray : list.hasKind .array = true)
    (h : p.runWithin true steps scope list = some d) : ∃ fewer slots pieces,
      slots.filterMap id = list.named ∧ Fills (p.runWithin true fewer) scope slots pieces ∧
      d = .list (mostLayers pieces) (pieces.flatMap (·.2)) := by
  obtain ⟨fewer, -, hform⟩ := runWithin_self harray rfl h
  unfold Project.runForm at hform
  rw [Site.kind_eq_of_hasKind harray] at hform
  obtain ⟨pieces, hpieces, hd⟩ := bind_eq_some.1 hform
  exact ⟨fewer, _, pieces, filterMap_places, forall₂_of_mapM hpieces, (Option.some.inj hd).symm⟩

theorem le_mostLayers {piece : Nat × List ScriptValue} (h : piece ∈ pieces) :
    piece.1 ≤ mostLayers pieces := by
  induction pieces with
  | nil => cases h
  | cons first rest ih =>
    rcases List.mem_cons.1 h with rfl | h
    · exact Nat.le_max_left _ _
    · exact Nat.le_trans (ih h) (Nat.le_max_right _ _)

theorem Fills.exists_piece (h : Fills recur scope slots pieces) (he : e ∈ slots.filterMap id) :
    ∃ piece ∈ pieces, runElement recur scope (some e) = some piece := by
  induction h with
  | nil => cases he
  | @cons place piece rest others hhere _ ih =>
    cases place with
    | none =>
      obtain ⟨piece', hmem, hpiece'⟩ := ih he
      exact ⟨piece', List.mem_cons_of_mem _ hmem, hpiece'⟩
    | some e' =>
      rcases List.mem_cons.1 he with rfl | he
      · exact ⟨piece, List.mem_cons_self, hhere⟩
      · obtain ⟨piece', hmem, hpiece'⟩ := ih he
        exact ⟨piece', List.mem_cons_of_mem _ hmem, hpiece'⟩

/-- An element that is no spread is one item. -/
theorem runElement_of_element {piece : Nat × List ScriptValue}
    (h : runElement recur scope (some e) = some piece) (hspread : e.hasKind .spreadElement = false) :
    ∃ d, recur scope e = some d ∧ piece = (0, [d]) := by
  rw [runElement, if_neg (by simp [hspread])] at h
  obtain ⟨d, hd, h⟩ := bind_eq_some.1 h
  exact ⟨d, hd, (Option.some.inj h).symm⟩

/-- A spread is the items of what is spread: of a list, one layer deeper, or of a text. -/
theorem runElement_of_spread {piece : Nat × List ScriptValue}
    (h : runElement recur scope (some e) = some piece) (hspread : e.hasKind .spreadElement = true) :
    ∃ source d, e.spreadSource? = some source ∧ recur scope source = some d ∧
      ((∃ layers, d = .list layers piece.2 ∧ piece.1 = layers + 1) ∨
        (∃ t, d = .constant (.text t)) ∧ piece.1 = 2) := by
  rw [runElement, if_pos hspread] at h
  obtain ⟨source, hsource, h⟩ := bind_eq_some.1 h
  obtain ⟨d, hd, h⟩ := bind_eq_some.1 h
  refine ⟨source, d, hsource, hd, ?_⟩
  split at h
  · cases h
    exact .inl ⟨_, rfl, rfl⟩
  · cases h
    exact .inr ⟨⟨_, rfl⟩, rfl⟩
  · cases h

/-- An element of a list literal that is no spread is among the items. -/
theorem Fills.exists_item (h : Fills recur scope slots pieces) (he : e ∈ slots.filterMap id)
    (hspread : e.hasKind .spreadElement = false) :
    ∃ d ∈ pieces.flatMap (·.2), recur scope e = some d := by
  obtain ⟨piece, hmem, hpiece⟩ := h.exists_piece he
  obtain ⟨d, hd, rfl⟩ := runElement_of_element hpiece hspread
  exact ⟨d, List.mem_flatMap.2 ⟨_, hmem, List.mem_singleton_self d⟩, hd⟩

/-- The items of a list that is spread into a list literal are among the items. -/
theorem Fills.subset_of_spread (h : Fills recur scope slots pieces) (he : e ∈ slots.filterMap id)
    (hspread : e.hasKind .spreadElement = true) : ∃ source d, e.spreadSource? = some source ∧
      recur scope source = some d ∧
      ∀ layers items, d = .list layers items → items ⊆ pieces.flatMap (·.2) := by
  obtain ⟨piece, hmem, hpiece⟩ := h.exists_piece he
  obtain ⟨source, d, hsource, hd, hpieces⟩ := runElement_of_spread hpiece hspread
  refine ⟨source, d, hsource, hd, fun layers items heq item hitem => ?_⟩
  rcases hpieces with ⟨layers', hlist, -⟩ | ⟨⟨t, htext⟩, -⟩
  · cases heq.symm.trans hlist
    exact List.mem_flatMap.2 ⟨piece, hmem, hitem⟩
  · cases heq.symm.trans htext

/-- Without layers, the items are those of the elements, one for each. -/
theorem Fills.flat (h : Fills recur scope slots pieces) (hlayers : ∀ piece ∈ pieces, piece.1 = 0) :
    List.Forall₂ (fun e d => recur scope e = some d) (slots.filterMap id) (pieces.flatMap (·.2)) := by
  induction h with
  | nil => exact .nil
  | @cons place piece rest others hhere _ ih =>
    obtain ⟨hpiece, hothers⟩ := List.forall_mem_cons.1 hlayers
    cases place with
    | none =>
      cases Option.some.inj hhere
      cases hpiece
    | some e =>
      by_cases hspread : e.hasKind .spreadElement = true
      · obtain ⟨_, _, -, -, ⟨_, -, hdeep⟩ | ⟨-, hdeep⟩⟩ := runElement_of_spread hhere hspread
        · omega
        · omega
      · obtain ⟨d, hd, rfl⟩ := runElement_of_element hhere (Bool.eq_false_iff.2 hspread)
        exact .cons hd (ih hothers)

/-- A list literal without layers comes to a list of what its elements come to. -/
theorem runWithin_flat (harray : list.hasKind .array = true)
    (h : p.runWithin true steps scope list = some (.list 0 items)) :
    List.Forall₂ (fun e d => p.ComesTo e d) list.named items := by
  obtain ⟨fewer, slots, pieces, hnamed, hfills, heq⟩ := runWithin_array harray h
  obtain ⟨hlayers, rfl⟩ := ScriptValue.list.inj heq
  have hflat := hfills.flat fun piece hpiece => Nat.le_zero.1 (hlayers ▸ le_mostLayers hpiece)
  rw [hnamed] at hflat
  exact hflat.imp fun e d he => ⟨fewer, scope, he⟩

/-- With one layer at most, the elements that a callback is given stand for the items, one for each. -/
theorem Fills.elements (h : Fills (p.runWithin true steps) scope slots pieces)
    (hlayers : ∀ piece ∈ pieces, piece.1 ≤ 1) {elements : List Element}
    (helements : p.spreadElements (slots.filterMap id) = .ok (some elements)) :
    List.Forall₂ (fun element d => element.bound.Stands p d) elements (pieces.flatMap (·.2)) := by
  induction h generalizing elements with
  | nil =>
    cases helements
    exact .nil
  | @cons place piece rest others hhere _ ih =>
    obtain ⟨hpiece, hothers⟩ := List.forall_mem_cons.1 hlayers
    cases place with
    | none =>
      cases Option.some.inj hhere
      exact absurd hpiece (by decide)
    | some e =>
      change p.spreadElements (e :: rest.filterMap id) = _ at helements
      rw [Project.spreadElements] at helements
      by_cases hspread : e.hasKind .spreadElement = true
      · obtain ⟨source, d, hsource, hd, hpieces⟩ := runElement_of_spread hhere hspread
        rw [if_pos hspread, hsource] at helements
        obtain ⟨denoted, hdenoted, helements⟩ := bind_eq_ok.1 helements
        cases denoted with
        | none => cases pure_eq_ok.1 helements
        | some inner =>
          obtain ⟨found, hfound, helements⟩ := bind_eq_ok.1 helements
          obtain ⟨tail, rfl, rfl⟩ := Option.map_eq_some_iff.1 (pure_eq_ok.1 helements)
          rcases hpieces with ⟨layers, rfl, hdeep⟩ | ⟨-, hdeep⟩
          · obtain rfl : layers = 0 := by omega
            obtain ⟨hdenoted, harray⟩ := of_onlyKind hdenoted
            obtain ⟨_, _, hinner⟩ := comesTo_of_denotedWithin hdenoted ⟨_, _, hd⟩
            have hitems := runWithin_flat harray hinner
            refine List.rel_append (List.forall₂_map_left_iff.2 ?_) (ih hothers hfound)
            exact hitems
          · omega
      · rw [if_neg hspread] at helements
        obtain ⟨found, hfound, helements⟩ := bind_eq_ok.1 helements
        obtain ⟨tail, rfl, rfl⟩ := Option.map_eq_some_iff.1 (pure_eq_ok.1 helements)
        obtain ⟨d, hd, rfl⟩ := runElement_of_element hhere (Bool.eq_false_iff.2 hspread)
        exact .cons ⟨_, _, hd⟩ (ih hothers hfound)

/-- A careful run reads from a list what the element comes to that evaluation finds under a key. -/
theorem get_of_elementAt (harray : list.hasKind .array = true)
    (hrun : p.runWithin true steps scope list = some d) (hentry : elementAt? list key = .ok (some entry))
    (hget : d.get true key = some found) : p.ComesTo entry found := by
  obtain ⟨fewer, slots, pieces, hnamed, hfills, rfl⟩ := runWithin_array harray hrun
  rw [ScriptValue.get, heed_bind_eq_some] at hget
  obtain ⟨hcareful, hget⟩ := hget
  unfold elementAt? at hentry
  split at hentry
  · next hindex =>
    obtain ⟨n, hn, hentry⟩ := bind_eq_ok.1 hentry
    rw [hindex, Bool.not_true, Bool.false_or, Bool.and_eq_true_iff] at hcareful
    obtain ⟨hlayers, hposition⟩ := hcareful
    have hn' : position? key = some n.toNat := by
      unfold position? at hposition ⊢
      rw [hn] at hposition ⊢
      simp only [Except.toOption, Option.bind_some] at hposition ⊢
      split at hposition
      · next hkey => rw [if_pos hkey]
      · cases hposition
    have hflat := hfills.flat fun piece hpiece => Nat.le_zero.1 (eq_of_beq hlayers ▸ le_mostLayers hpiece)
    rw [hnamed] at hflat
    have hrel := forall₂_getElem hflat n.toNat
    rw [pure_eq_ok.1 hentry] at hrel
    rw [hn', Option.bind_some] at hget
    cases hitem : (pieces.flatMap (·.2))[n.toNat]? with
    | none =>
      rw [hitem] at hrel
      cases hrel
    | some item =>
      rw [hitem] at hrel hget
      cases Option.some.inj hget
      cases hrel with
      | some he => exact ⟨fewer, scope, he⟩
  · cases hentry

end Lists

/-! ### Numbers -/

section Numbers

variable {v w : Value} {d : ScriptValue} {text : String}

/-- A careful run takes for a number what evaluation does. -/
theorem computedNumber_of_finiteResult (hrun : computedNumber true w = some d)
    (hv : finiteResult text w = .ok (.ok v)) : d = .constant v := by
  unfold computedNumber at hrun
  unfold finiteResult at hv
  split at hrun
  · exact absurd hv fail_ne_ok
  · exact absurd hv fail_ne_ok
  · obtain ⟨hexact, hrun⟩ := heed_bind_eq_some.1 hrun
    have hrounded : w.rounded = w.normalize := if_pos hexact
    rw [← Option.some.inj hrun, hrounded]
    split at hv
    · split at hv
      · rw [← value_eq_ok.1 hv]
      · exact absurd hv fail_ne_ok
    · next hno =>
      rw [← value_eq_ok.1 hv]
      cases w with
      | decimal x => exact absurd rfl (hno x)
      | null | truth | integer | text | list | record => rfl

theorem runNumeral_of_numeralValue {s : Site} (hrun : runNumeral true s = some d)
    (hv : numeralValue s = .ok (.ok v)) : d = .constant v := by
  unfold numeralValue at hv
  obtain ⟨hplain, hrun⟩ := heed_bind_eq_some.1 hrun
  rw [if_neg (by simpa using hplain)] at hrun
  split at hv
  · next hparse =>
    rw [hparse] at hrun
    exact computedNumber_of_finiteResult hrun hv
  · exact absurd hv fail_ne_ok

theorem of_numberOf {o : Outcome Value} (h : numberOf? o = some v) : o = .ok v ∧ v.isNumber = true := by
  unfold numberOf? at h
  split at h
  · split at h
    · next hnumber =>
      cases h
      exact ⟨rfl, hnumber⟩
    · cases h
  · cases h

end Numbers

/-! ### Expressions -/

section Expressions

variable {p : Project} {recur : Evaluator} {b : Bindings} {s base : Site} {key : String} {steps : Nat}
  {scope : Scope} {d container : ScriptValue} {v : Value}

/-- What bindings say of a name, the parameters of a run say too. -/
def Matches (p : Project) (b : Bindings) (scope : Scope) : Prop :=
  ∀ name bound, b.lookup name = some bound → ∃ d, scope.lookup name = some d ∧ bound.Stands p d

theorem matches_nil : Matches p [] scope := nofun

/-- Every value that an evaluator has is what a careful run comes to. -/
def Project.Foretells (p : Project) (recur : Evaluator) : Prop :=
  ∀ {s b scope steps d v}, Matches p b scope → p.runWithin true steps scope s = some d →
    recur s b = .ok (.ok v) → d = .constant v

theorem Project.Foretells.comesTo (h : p.Foretells recur) (hcomes : p.ComesTo s d)
    (hv : recur s [] = .ok (.ok v)) : d = .constant v := by
  obtain ⟨steps, scope, hrun⟩ := hcomes
  exact h matches_nil hrun hv

theorem runUnary_of_unaryValue (h : p.Foretells recur) (hb : Matches p b scope)
    (hrun : runUnary true (p.runWithin true steps) scope s = some d)
    (hv : unaryValue recur b s = .ok (.ok v)) : d = .constant v := by
  unfold unaryValue at hv
  split at hv
  · exact absurd hv fail_ne_ok
  · next o ho =>
    obtain ⟨outcome, hargument, hv⟩ := bind_eq_ok.1 hv
    split at hv
    · next n hn =>
      obtain ⟨rfl, hnumber⟩ := of_numberOf hn
      obtain ⟨argument, hpart, hargument⟩ := exists_part_of_partValue hargument
      obtain ⟨w, hw, hv⟩ := bind_eq_ok.1 hv
      simp only [runUnary, ho, hpart] at hrun
      obtain ⟨computed, hcomputed, hrun⟩ := bind_eq_some.1 hrun
      cases h hb hcomputed hargument
      simp only [hnumber, if_true, hw] at hrun
      exact computedNumber_of_finiteResult hrun hv
    · exact absurd hv fail_ne_ok

theorem runBinary_of_binaryValue (h : p.Foretells recur) (hb : Matches p b scope)
    (hrun : runBinary true (p.runWithin true steps) scope s = some d)
    (hv : binaryValue recur b s = .ok (.ok v)) : d = .constant v := by
  unfold binaryValue at hv
  split at hv
  · exact absurd hv fail_ne_ok
  · next o ho =>
    obtain ⟨left, hleft, hrest⟩ := bind_eq_ok.1 hv
    obtain ⟨right, hright, hvalue⟩ := bind_eq_ok.1 hrest
    split at hvalue
    · next m n hm hn =>
      obtain ⟨rfl, hmnumber⟩ := of_numberOf hm
      obtain ⟨rfl, hnnumber⟩ := of_numberOf hn
      obtain ⟨leftPart, hleftPart, hleft⟩ := exists_part_of_partValue hleft
      obtain ⟨rightPart, hrightPart, hright⟩ := exists_part_of_partValue hright
      simp only [runBinary, ho, hleftPart, hrightPart] at hrun
      obtain ⟨computedLeft, hcomputedLeft, hrun⟩ := bind_eq_some.1 hrun
      cases h hb hcomputedLeft hleft
      obtain ⟨computedRight, hcomputedRight, hresult⟩ := bind_eq_some.1 hrun
      cases h hb hcomputedRight hright
      split at hvalue
      · exact absurd hvalue fail_ne_ok
      · next hdivides =>
        obtain ⟨result, happly, hvalue⟩ := bind_eq_ok.1 hvalue
        cases result with
        | none => exact absurd hvalue fail_ne_ok
        | some w =>
          have hcondition : (m.isNumber && n.isNumber && !(o.divides && n.isZero)) = true := by
            simp [hmnumber, hnnumber, Bool.eq_false_iff.2 hdivides]
          simp only [hcondition, if_true, happly] at hresult
          exact computedNumber_of_finiteResult hresult hvalue
    · exact absurd hvalue fail_ne_ok

theorem runName_of_nameValue (h : p.Foretells recur) (hb : Matches p b scope)
    (hrun : p.runName true (p.runWithin true steps) scope s = some d)
    (hv : p.nameValue recur b s = .ok (.ok v)) : d = .constant v := by
  unfold Project.nameValue at hv
  cases hbound : b.lookup s.text with
  | some bound =>
    obtain ⟨found, hfound, hstands⟩ := hb s.text bound hbound
    cases runName_of_lookup hrun hfound
    rw [hbound] at hv
    cases bound with
    | value w => rw [← value_eq_ok.1 hv, hstands]
    | expression e => exact h.comesTo hstands hv
  | none =>
    rw [hbound] at hv
    obtain ⟨initializer?, hinitializer, hv⟩ := bind_eq_ok.1 hv
    cases initializer? with
    | none => exact absurd hv fail_ne_ok
    | some initializer =>
      obtain ⟨outcome, houtcome, hv⟩ := bind_eq_ok.1 hv
      cases outcome with
      | error f => exact absurd hv fail_ne_ok
      | ok w =>
        cases value_eq_ok.1 hv
        exact h matches_nil (runName_of_initializer hrun hinitializer) houtcome

/-- The literal that an access reads from comes to what its base comes to. -/
theorem comesTo_of_container {literal : Site} (hb : Matches p b scope)
    (hbase : p.runWithin true steps scope base = some container)
    (hliteral : p.container? b base.unwrap = .ok (some literal)) :
    p.ComesTo literal container ∧ (literal.hasKind .object || literal.hasKind .array) = true := by
  rw [← runWithin_unwrap] at hbase
  have hdenoted {start : Site} (hstart : p.ComesTo start container)
      (h : (do return (← p.denoted? start).filter fun s => s.hasKind .object || s.hasKind .array :
        Attempt (Option Site)) = .ok (some literal)) :
      p.ComesTo literal container ∧ (literal.hasKind .object || literal.hasKind .array) = true := by
    obtain ⟨found, hfound, h⟩ := bind_eq_ok.1 h
    obtain ⟨rfl, hkind⟩ := Option.filter_eq_some_iff.1 (pure_eq_ok.1 h)
    exact ⟨comesTo_of_denotedWithin hfound hstart, hkind⟩
  unfold Project.container? at hliteral
  split at hliteral
  · next hname =>
    dsimp only at hliteral
    cases hbound : b.lookup base.unwrap.text with
    | none =>
      rw [hbound] at hliteral
      exact hdenoted ⟨_, _, hbase⟩ hliteral
    | some bound =>
      rw [hbound] at hliteral
      cases bound with
      | value w => cases hliteral
      | expression e =>
        obtain ⟨found, hfound, hstands⟩ := hb _ _ hbound
        obtain ⟨fewer, -, hform⟩ := runWithin_self hname rfl hbase
        unfold Project.runForm at hform
        rw [Site.kind_eq_of_hasKind hname] at hform
        cases runName_of_lookup hform hfound
        exact hdenoted hstands hliteral
  · exact hdenoted ⟨_, _, hbase⟩ hliteral

/-- A careful access has the value that evaluation reads. -/
theorem get_of_accessValue (h : p.Foretells recur) (hb : Matches p b scope)
    (henum : p.namesEnum base.unwrap key = false)
    (hbase : p.runWithin true steps scope base = some container)
    (hget : container.get true key = some d) (hv : p.accessValue recur b base key = .ok (.ok v)) :
    d = .constant v := by
  obtain ⟨houtside, hdeclared⟩ := Bool.or_eq_false_iff.1 henum
  rw [accessValue_eq] at hv
  obtain ⟨found, hfound, hv⟩ := bind_eq_ok.1 hv
  have hnone : found = none := by
    rcases declaredEnumMember_cases hfound with
      ⟨enumeration, -, ⟨hname, -, name, hnames⟩, -⟩ | ⟨hnone, -⟩
    · rw [hname, hnames] at hdeclared
      cases hdeclared
    · exact hnone
  subst hnone
  obtain ⟨read, hentry, hv⟩ := bind_eq_ok.1 hv
  cases read with
  | none =>
    rw [entryValue] at hv
    split at hv
    · next hmember =>
      rw [hmember] at houtside
      cases houtside
    · exact absurd hv fail_ne_ok
  | some entry =>
    obtain ⟨denoted, hliteral, hentry⟩ := bind_eq_ok.1 hentry
    cases denoted with
    | none => cases pure_eq_ok.1 hentry
    | some literal =>
      obtain ⟨⟨steps', scope', hcomes⟩, hkind⟩ := comesTo_of_container hb hbase hliteral
      dsimp only [entryAt?] at hentry
      split at hentry
      · next hobject =>
        obtain ⟨fewer, hrun⟩ := get_of_memberValue hobject hcomes hentry hget
        exact h matches_nil hrun hv
      · next hobject =>
        rw [Bool.eq_false_iff.2 hobject, Bool.false_or] at hkind
        exact h.comesTo (get_of_elementAt hkind hcomes hentry hget) hv

theorem runProperty_of_memberValue (h : p.Foretells recur) (hb : Matches p b scope)
    (hrun : p.runProperty true (p.runWithin true steps) scope s = some d)
    (hv : p.memberValue recur b s = .ok (.ok v)) : d = .constant v := by
  unfold Project.memberValue at hv
  split at hv
  · next base key hparts =>
    obtain ⟨henum, container, hbase, hget⟩ := runProperty_eq_some hparts hrun
    exact get_of_accessValue h hb henum hbase hget hv
  · exact absurd hv fail_ne_ok

theorem runSubscript_of_elementValue (h : p.Foretells recur) (hb : Matches p b scope)
    (hrun : p.runSubscript true (p.runWithin true steps) scope s = some d)
    (hv : p.elementValue recur b s = .ok (.ok v)) : d = .constant v := by
  obtain ⟨index, hindex, hv⟩ := bind_eq_ok.1 hv
  have hread {base : Site} {w : Value} {key : String} (hw : index = .ok w)
      (hobject : s.part? .object = some base) (hkey : readKey? w = some key)
      (haccess : p.accessValue recur b base key = .ok (.ok v)) : d = .constant v := by
    subst hw
    obtain ⟨indexPart, hpart, hindex⟩ := exists_part_of_partValue hindex
    simp only [Project.runSubscript, hobject, hpart] at hrun
    obtain ⟨computed, hcomputed, hrun⟩ := bind_eq_some.1 hrun
    cases h hb hcomputed hindex
    dsimp only at hrun
    rw [hkey] at hrun
    obtain ⟨henum, container, hbase, hget⟩ := runAccess_eq_some hrun
    exact get_of_accessValue h hb henum hbase hget haccess
  split at hv
  · next hobject => exact hread rfl hobject rfl hv
  · next w base _ hobject =>
    split at hv
    · next hnumber =>
      obtain ⟨key, hkey, hv⟩ := bind_eq_ok.1 hv
      refine hread rfl hobject ?_ hv
      cases w with
      | text t => cases hnumber
      | integer | decimal | null | truth | list | record => simp [readKey?, hkey, Except.toOption]
    · exact absurd hv fail_ne_ok
  · exact absurd hv fail_ne_ok

theorem runTemplate_of_stringValue {t : String} (hrun : runTemplate true s = some d)
    (hplain : s.hasSubstitutions = false) (hv : s.stringValue = .ok t) : d = .constant (.text t) := by
  unfold runTemplate at hrun
  rw [if_neg (by simp [hplain])] at hrun
  obtain ⟨hcareful, hrun⟩ := heed_bind_eq_some.1 hrun
  rw [if_neg (by simpa using hcareful), hv] at hrun
  exact (Option.some.inj hrun).symm

/-- Every form of expression comes to the value that it is evaluated to. -/
theorem runForm_of_valueOf (h : p.Foretells recur) (hb : Matches p b scope)
    (hrun : p.runForm true (p.runWithin true steps) scope s = some d)
    (hv : p.valueOf recur b s = .ok (.ok v)) : d = .constant v := by
  unfold Project.valueOf at hv
  unfold Project.runForm at hrun
  split at hv
  case h_1 hkind =>
    obtain ⟨t, ht, hv⟩ := bind_eq_ok.1 hv
    rw [hkind, ht] at hrun
    rw [← value_eq_ok.1 hv]
    exact (Option.some.inj hrun).symm
  case h_2 hkind =>
    rw [hkind] at hrun
    split at hv
    · exact absurd hv fail_ne_ok
    · next hplain =>
      obtain ⟨t, ht, hv⟩ := bind_eq_ok.1 hv
      rw [← value_eq_ok.1 hv]
      exact runTemplate_of_stringValue hrun (Bool.eq_false_iff.2 hplain) ht
  case h_3 hkind =>
    rw [hkind] at hrun
    exact runNumeral_of_numeralValue hrun hv
  case h_4 hkind | h_5 hkind =>
    rw [hkind] at hrun
    rw [← value_eq_ok.1 hv]
    exact (Option.some.inj hrun).symm
  case h_6 hkind | h_7 hkind =>
    rw [hkind] at hrun
    exact runName_of_nameValue h hb hrun hv
  case h_8 hkind =>
    rw [hkind] at hrun
    exact runProperty_of_memberValue h hb hrun hv
  case h_9 hkind =>
    rw [hkind] at hrun
    exact runSubscript_of_elementValue h hb hrun hv
  case h_10 hkind =>
    rw [hkind] at hrun
    exact runBinary_of_binaryValue h hb hrun hv
  case h_11 hkind =>
    rw [hkind] at hrun
    exact runUnary_of_unaryValue h hb hrun hv
  case h_12 => exact absurd hv fail_ne_ok

theorem foretells_evaluateWithin (depth : Nat) : p.Foretells (p.evaluateWithin depth) := by
  induction depth with
  | zero => exact fun _ _ hv => absurd hv fail_ne_ok
  | succ depth ih =>
    intro s b scope steps d v hb hrun hv
    cases steps with
    | zero => cases hrun
    | succ steps => exact runForm_of_valueOf ih hb hrun hv

/-- A careful run of an expression comes to nothing but the value that it is evaluated to. -/
theorem eq_constant_of_evaluate (hb : Matches p b scope)
    (hrun : p.runWithin true steps scope s = some d) (hv : p.evaluate s b = .ok (.ok v)) :
    d = .constant v := foretells_evaluateWithin evaluationDepth hb hrun hv

end Expressions

end SettingsHarvest
