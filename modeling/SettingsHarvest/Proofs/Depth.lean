import SettingsHarvest.Proofs.Answers
import SettingsHarvest.Proofs.Mentions
import SettingsHarvest.Syntax.Program

/-! What depth changes.

Evaluation goes a bounded number of steps deep. Most forms pass it on when they meet the bound, but the
reading of an enumeration does not: a member whose initializer is too deep is left out, and the reading
goes on without it. So an expression that comes to a value can come to another one with more depth, where
the name of the member left out means something else: another constant to a later initializer, a member
of an enumeration outside the files, an earlier member of the same name.

`SetApart` excludes these three. Then more depth keeps every value (`KeepsValues`), although not every
failure: a reading with more depth finds the same members and maybe others (`Behind`), and bindings that
give values to more names, unknown otherwise, change no value (`Widens`). -/
namespace SettingsHarvest
open Syntax Project

/-! ### Members of enumerations -/

/-- The name and the initializer of a member of an enumeration. -/
def memberParts (member : Site) : Option Site × Option Site :=
  if member.hasKind .enumAssignment then (member.part? .name, member.part? .value)
  else (some member, none)

/-- A member of an enumeration with its name. -/
def IsNamed (member : Site) (name : String) : Prop :=
  ∃ spelled, (memberParts member).1 = some spelled ∧ memberName spelled = .ok name

theorem IsNamed.unique {member : Site} {name name' : String} (h : IsNamed member name)
    (h' : IsNamed member name') : name = name' := by
  obtain ⟨spelled, hspelled, hname⟩ := h
  obtain ⟨spelled', hspelled', hname'⟩ := h'
  cases hspelled.symm.trans hspelled'
  exact Except.ok.inj (hname.symm.trans hname')

theorem isNamed_iff_of_spelled {member spelled : Site} {name : String}
    (hspelled : (memberParts member).1 = some spelled) (hname : memberName spelled = .ok name)
    (other : String) : IsNamed member other ↔ other = name := by
  constructor
  · exact fun h => h.unique ⟨spelled, hspelled, hname⟩
  · rintro rfl
    exact ⟨spelled, hspelled, hname⟩

/-- The members of an enumeration as they are written. -/
def membersOf (enumeration : Site) : List Site := ((enumeration.part? .body).map Site.named).getD []

theorem enumMembersBy_eq (recur : Evaluator) (enumeration : Site) :
    enumMembersBy recur enumeration =
      (membersOf enumeration).foldlM (EnumReading.add recur) ⟨[], some (.integer 0)⟩ >>=
        fun r => pure r.members := by
  unfold enumMembersBy membersOf
  cases enumeration.part? .body <;> rfl

theorem throughout_initializer {U : Node → Prop} {enumeration member initializer : Site}
    (h : enumeration.Throughout U) (hmember : member ∈ membersOf enumeration)
    (hinitializer : (memberParts member).2 = some initializer) : initializer.Throughout U := by
  unfold membersOf at hmember
  cases hbody : enumeration.part? .body with
  | none =>
    rw [hbody] at hmember
    cases hmember
  | some body =>
    rw [hbody] at hmember
    have hmember : member.Throughout U := (h.part? hbody).named hmember
    unfold memberParts at hinitializer
    split at hinitializer
    · exact hmember.part? hinitializer
    · cases hinitializer

namespace EnumReading

variable {recur recur' : Evaluator} {r r' : EnumReading} {member : Site}

/-- The members so far, as bindings. -/
def bindings (r : EnumReading) : Bindings := r.members.map fun (m, v) => (m, .value v)

theorem lookup_bindings (r : EnumReading) (name : String) :
    r.bindings.lookup name = (r.members.lookup name).map .value := by
  obtain ⟨members, next⟩ := r
  unfold bindings
  induction members with
  | nil => rfl
  | cons first rest ih =>
    obtain ⟨k, v⟩ := first
    rw [List.map_cons, lookup_cons_eq_ite, lookup_cons_eq_ite, ih]
    split <;> rfl

/-- The reading once a member was found to have a value, or none. -/
def take (r : EnumReading) (name : String) : Option Value → EnumReading
  | some v => ⟨assign name v r.members, v.successor⟩
  | none => { r with next := none }

theorem lookup_take (r : EnumReading) (name other : String) (found : Option Value) :
    (r.take name found).members.lookup other =
      if other = name then found.or (r.members.lookup other) else r.members.lookup other := by
  cases found with
  | some v => exact lookup_assign name other v r.members
  | none => exact (ite_self _).symm

/-- What is found for a member: what its initializer comes to, or else the next number. -/
inductive Finds (recur : Evaluator) (r : EnumReading) (member : Site) : Option Value → Prop where
  | next : (memberParts member).2 = none → Finds recur r member r.next
  | initializer {initializer : Site} {outcome : Outcome Value} :
    (memberParts member).2 = some initializer → recur initializer r.bindings = .ok outcome →
    Finds recur r member outcome.toOption

/-- A member without name is passed over, any other is taken with what is found for it. -/
theorem eq_take_of_add (h : r.add recur member = .ok r') :
    (memberParts member).1 = none ∧ r' = r ∨
      ∃ name found, IsNamed member name ∧ r.Finds recur member found ∧ r' = r.take name found := by
  unfold add at h
  generalize hparts : (if member.hasKind .enumAssignment then (member.part? .name, member.part? .value)
    else (some member, none)) = parts at h
  have hparts : memberParts member = parts := hparts
  obtain ⟨name?, value?⟩ := parts
  cases name? with
  | none =>
    cases h
    exact .inl ⟨by rw [hparts], rfl⟩
  | some spelled =>
    obtain ⟨name, hname, h⟩ := bind_eq_ok.1 h
    refine .inr ⟨name, ?_⟩
    have hnamed : IsNamed member name := ⟨spelled, by rw [hparts], hname⟩
    cases value? with
    | none =>
      refine ⟨r.next, hnamed, .next (by rw [hparts]), ?_⟩
      obtain ⟨members, next⟩ := r
      cases next <;> exact (pure_eq_ok.1 h).symm
    | some initializer =>
      obtain ⟨outcome, houtcome, h⟩ := bind_eq_ok.1 h
      refine ⟨outcome.toOption, hnamed, .initializer (by rw [hparts]) houtcome, ?_⟩
      cases outcome <;> exact (pure_eq_ok.1 h).symm

end EnumReading

/-! ### Enumerations set apart -/

/-- A name of which nothing is known where it stands. -/
structure Project.Unknown (p : Project) (name : Site) : Prop where
  undeclared : p.declaration? name = .ok none
  unspelled : initializerBySpelling? name = none

/-- A member of an enumeration by that name. -/
def HasMember (enumeration : Site) (name : String) : Prop :=
  ∃ member ∈ membersOf enumeration, IsNamed member name

/-- An enumeration the names of whose members mean nothing else. -/
structure Project.SetApart (p : Project) (base enumeration : Site) : Prop where
  /-- No two members share a name. -/
  once : (membersOf enumeration).Pairwise fun member other =>
    ∀ name, IsNamed member name → ¬IsNamed other name
  /-- In an initializer, the name of a member is not that of anything else. -/
  unknown : ∀ member ∈ membersOf enumeration, ∀ initializer, (memberParts member).2 = some initializer →
    ∀ name, initializer.Mentions name → HasMember enumeration name.text → p.Unknown name
  /-- No enumeration outside the files has a member of the same name. -/
  outside : ∀ name, HasMember enumeration name → p.enumMember? base.text name = none

/-- A project whose files are of the nodes `U`, and whose enumerations are set apart. -/
structure Project.EnumsApart (p : Project) (U : Node → Prop) : Prop where
  files : ∀ f ∈ p.known ++ p.readable, f.top.Throughout U
  apart : ∀ base name enumeration, base.Throughout U →
    p.declaration? base = .ok (some ⟨name, enumeration, .enumeration⟩) → p.SetApart base enumeration

/-! ### Readings at two depths -/

/-- Bindings that give values to more of the names an expression mentions, unknown ones. -/
def Project.Widens (p : Project) (s : Site) (b b' : Bindings) : Prop :=
  ∀ name, s.Mentions name → b.lookup name.text = b'.lookup name.text ∨
    b.lookup name.text = none ∧ p.Unknown name ∧ ∃ v, b'.lookup name.text = some (.value v)

/-- Bindings to values and to expressions of the nodes `U`. -/
def BoundIn (U : Node → Prop) (b : Bindings) : Prop :=
  ∀ name s, b.lookup name = some (.expression s) → s.Throughout U

/-- What comes to a value comes to no other one there. -/
def Keeps (x x' : Evaluation) : Prop := ∀ v o, x = .ok (.ok v) → x' = .ok o → o = .ok v

/-- An evaluator whose values another one keeps, with wider bindings too. -/
def Project.KeepsValues (p : Project) (U : Node → Prop) (recur recur' : Evaluator) : Prop :=
  ∀ s b b', s.Throughout U → BoundIn U b → p.Widens s b b' → Keeps (recur s b) (recur' s b')

theorem boundIn_nil {U : Node → Prop} : BoundIn U [] := nofun

theorem Project.Widens.refl (p : Project) (s : Site) (b : Bindings) : p.Widens s b b :=
  fun _ _ => .inl rfl

theorem Keeps.refl (x : Evaluation) : Keeps x x := fun _ _ h h' => Except.ok.inj (h'.symm.trans h)

section Readings

variable {p : Project} {U : Node → Prop} {recur recur' : Evaluator} {enumeration base : Site}

/-- A reading that found at least what another one did. -/
structure EnumReading.Behind (r r' : EnumReading) : Prop where
  members : ∀ name v, r.members.lookup name = some v → r'.members.lookup name = some v
  next : ∀ v, r.next = some v → r'.next = some v

namespace EnumReading

variable {r r' : EnumReading} {member : Site}

theorem boundIn_bindings (r : EnumReading) : BoundIn U r.bindings := by
  intro name s h
  rw [lookup_bindings] at h
  cases hmember : r.members.lookup name <;> rw [hmember] at h <;> cases h

/-- Taking a member of a new name keeps a reading behind. -/
theorem Behind.take (h : Behind r r') {name : String} {found found' : Option Value}
    (hfound : ∀ v, found = some v → found' = some v) (hnew : r'.members.lookup name = none) :
    Behind (r.take name found) (r'.take name found') where
  members other v hv := by
    rw [lookup_take] at hv ⊢
    by_cases hother : other = name
    · have hnone : r.members.lookup name = none := by
        cases hmember : r.members.lookup name with
        | none => rfl
        | some w => cases (h.members name w hmember).symm.trans hnew
      rw [if_pos hother, hother, hnone, Option.or_none] at hv
      rw [if_pos hother, hfound v hv, Option.some_or]
    · rw [if_neg hother] at hv ⊢
      exact h.members other v hv
  next v hv := by
    cases found with
    | none => cases hv
    | some w =>
      rw [hfound w rfl]
      exact hv

/-- The names of an enumeration's members widen the bindings in its initializers. -/
theorem Behind.widens (hapart : p.SetApart base enumeration) (h : Behind r r')
    (hmembers : ∀ name, r'.members.lookup name ≠ none → HasMember enumeration name)
    (hmember : member ∈ membersOf enumeration) {initializer : Site}
    (hinitializer : (memberParts member).2 = some initializer) :
    p.Widens initializer r.bindings r'.bindings := by
  intro name hname
  rw [lookup_bindings, lookup_bindings]
  cases hr : r.members.lookup name.text with
  | some v => exact .inl (by rw [h.members name.text v hr])
  | none =>
    cases hr' : r'.members.lookup name.text with
    | none => exact .inl rfl
    | some v =>
      have hhas : HasMember enumeration name.text :=
        hmembers name.text (by rw [hr']; exact Option.some_ne_none v)
      exact .inr ⟨rfl, hapart.unknown member hmember initializer hinitializer name hname hhas, v, rfl⟩

/-- What is found for a member is found from a reading ahead as well. -/
theorem Behind.finds (hapart : p.SetApart base enumeration) (henum : enumeration.Throughout U)
    (hrecur : p.KeepsValues U recur recur') (h : Behind r r')
    (hmembers : ∀ name, r'.members.lookup name ≠ none → HasMember enumeration name)
    (hmember : member ∈ membersOf enumeration) {found found' : Option Value}
    (hfound : r.Finds recur member found) (hfound' : r'.Finds recur' member found') :
    ∀ v, found = some v → found' = some v := by
  intro v hv
  cases hfound with
  | next hnone =>
    cases hfound' with
    | next => exact h.next v hv
    | initializer hsome => cases hnone.symm.trans hsome
  | initializer hsome hvalue =>
    cases hfound' with
    | next hnone => cases hnone.symm.trans hsome
    | initializer hsome' hvalue' =>
      cases hsome.symm.trans hsome'
      have hwidens := h.widens hapart hmembers hmember hsome
      have hthroughout := throughout_initializer henum hmember hsome
      rename_i outcome outcome'
      cases outcome with
      | error f => cases hv
      | ok w =>
        cases hv
        rw [hrecur _ _ _ hthroughout r.boundIn_bindings hwidens _ _ hvalue hvalue']
        rfl

/-- Two readings of an enumeration with the same members ahead, one of them behind the other. -/
structure InStep (enumeration : Site) (ahead : List Site) (r r' : EnumReading) : Prop where
  behind : Behind r r'
  own : ∀ member ∈ ahead, member ∈ membersOf enumeration
  once : ahead.Pairwise fun member other => ∀ name, IsNamed member name → ¬IsNamed other name
  members : ∀ name, r'.members.lookup name ≠ none → HasMember enumeration name
  new : ∀ member ∈ ahead, ∀ name, IsNamed member name → r'.members.lookup name = none

/-- Reading one more member. -/
theorem InStep.add (hapart : p.SetApart base enumeration) (henum : enumeration.Throughout U)
    (hrecur : p.KeepsValues U recur recur') {rest : List Site} {next next' : EnumReading}
    (h : InStep enumeration (member :: rest) r r') (hnext : r.add recur member = .ok next)
    (hnext' : r'.add recur' member = .ok next') : InStep enumeration rest next next' := by
  obtain ⟨hmember, hown⟩ := List.forall_mem_cons.1 h.own
  obtain ⟨honce, hrest⟩ := List.pairwise_cons.1 h.once
  obtain ⟨hnew, hnewRest⟩ := List.forall_mem_cons.1 h.new
  rcases eq_take_of_add hnext with ⟨hnone, rfl⟩ | ⟨name, found, hname, hfound, rfl⟩
  · rcases eq_take_of_add hnext' with ⟨-, rfl⟩ | ⟨name, found, ⟨spelled, hsome, -⟩, -⟩
    · exact ⟨h.behind, hown, hrest, h.members, hnewRest⟩
    · cases hnone.symm.trans hsome
  · rcases eq_take_of_add hnext' with ⟨hnone, -⟩ | ⟨name', found', hname', hfound', rfl⟩
    · obtain ⟨spelled, hsome, -⟩ := hname
      cases hnone.symm.trans hsome
    · cases hname.unique hname'
      have hkept := h.behind.finds hapart henum hrecur h.members hmember hfound hfound'
      refine ⟨h.behind.take hkept (hnew name hname), hown, hrest, fun other hother => ?_, ?_⟩
      · rw [lookup_take] at hother
        split at hother
        · next heq => exact ⟨member, hmember, heq ▸ hname⟩
        · exact h.members other hother
      · intro other hotherMember otherName hotherName
        have hne : otherName ≠ name := by
          rintro rfl
          exact honce other hotherMember otherName hname hotherName
        rw [lookup_take, if_neg hne]
        exact hnewRest other hotherMember otherName hotherName

/-- Reading all members that are ahead. -/
theorem InStep.foldlM (hapart : p.SetApart base enumeration) (henum : enumeration.Throughout U)
    (hrecur : p.KeepsValues U recur recur') {ahead : List Site} {last last' : EnumReading}
    (h : InStep enumeration ahead r r') (hlast : ahead.foldlM (EnumReading.add recur) r = .ok last)
    (hlast' : ahead.foldlM (EnumReading.add recur') r' = .ok last') :
    InStep enumeration [] last last' := by
  induction ahead generalizing r r' with
  | nil =>
    cases pure_eq_ok.1 hlast
    cases pure_eq_ok.1 hlast'
    exact h
  | cons member rest ih =>
    rw [List.foldlM_cons] at hlast hlast'
    obtain ⟨next, hnext, hlast⟩ := bind_eq_ok.1 hlast
    obtain ⟨next', hnext', hlast'⟩ := bind_eq_ok.1 hlast'
    exact ih (h.add hapart henum hrecur hnext hnext') hlast hlast'

end EnumReading

/-- Members keep their values, and what else is found are members. -/
theorem enumMembers_keeps (hapart : p.SetApart base enumeration) (henum : enumeration.Throughout U)
    (hrecur : p.KeepsValues U recur recur') {members members' : List (String × Value)}
    (h : enumMembersBy recur enumeration = .ok members)
    (h' : enumMembersBy recur' enumeration = .ok members') :
    (∀ name v, members.lookup name = some v → members'.lookup name = some v) ∧
      ∀ name, members'.lookup name ≠ none → HasMember enumeration name := by
  rw [enumMembersBy_eq] at h h'
  obtain ⟨last, hlast, h⟩ := bind_eq_ok.1 h
  obtain ⟨last', hlast', h'⟩ := bind_eq_ok.1 h'
  cases pure_eq_ok.1 h
  cases pure_eq_ok.1 h'
  have hstart : EnumReading.InStep enumeration (membersOf enumeration) ⟨[], some (.integer 0)⟩
      ⟨[], some (.integer 0)⟩ :=
    ⟨⟨fun _ _ => id, fun _ => id⟩, fun _ => id, hapart.once, fun _ h => absurd rfl h, fun _ _ _ _ => rfl⟩
  have hlast := hstart.foldlM hapart henum hrecur hlast hlast'
  exact ⟨hlast.behind.members, hlast.members⟩

end Readings

/-! ### Steps at two depths -/

section Steps

variable {p : Project} {U : Node → Prop} {recur recur' : Evaluator} {b b' : Bindings} {s base : Site}
  {key : String}

theorem Syntax.Site.Throughout.legible {s : Site} (h : s.Throughout U) : s.Legible U fun _ => True :=
  h.mono fun _ hn => ⟨hn, fun _ => ⟨fun _ => trivial, fun _ => trivial⟩⟩

theorem legible_of_files (h : ∀ f ∈ p.known ++ p.readable, f.top.Throughout U) :
    p.Legible U fun _ => True where
  aliases := ⟨fun _ _ _ => ⟨fun _ => trivial, fun _ => trivial⟩, fun _ => trivial⟩
  closed := fun _ _ => trivial
  files := fun f hf => (Site.Throughout.legible (h f hf)).here

theorem Project.EnumsApart.legible (hp : p.EnumsApart U) : p.Legible U fun _ => True :=
  legible_of_files hp.files

theorem throughout_declared (hp : p.Legible U fun _ => True) (hs : s.Throughout U) {d : Declaration}
    (h : p.declaration? s = .ok (some d)) : d.site.Throughout U :=
  throughout_of_legible ((hp.declaration? hs.legible).result h d rfl).site

/-- A base that is the name of an enumeration. -/
structure NamesEnum (p : Project) (b : Bindings) (base enumeration : Site) : Prop where
  isName : base.hasKind .identifier = true
  free : b.lookup base.text = none
  declared : ∃ name, p.declaration? base = .ok (some ⟨name, enumeration, .enumeration⟩)

theorem declaredEnumMember_cases {found : Option Value}
    (h : p.declaredEnumMember? recur b base key = .ok found) :
    (∃ enumeration members, NamesEnum p b base enumeration ∧
        enumMembersBy recur enumeration = .ok members ∧ found = members.lookup key) ∨
      found = none ∧ ∀ enumeration, ¬NamesEnum p b base enumeration := by
  unfold Project.declaredEnumMember? at h
  split at h
  · next hfree =>
    obtain ⟨hname, hfree⟩ := Bool.and_eq_true_iff.1 hfree
    obtain ⟨declared, hdeclared, h⟩ := bind_eq_ok.1 h
    split at h
    · next name enumeration =>
      obtain ⟨members, hmembers, h⟩ := bind_eq_ok.1 h
      exact .inl ⟨enumeration, members, ⟨hname, Option.isNone_iff_eq_none.1 hfree, name, hdeclared⟩,
        hmembers, (pure_eq_ok.1 h).symm⟩
    · next hother =>
      refine .inr ⟨(pure_eq_ok.1 h).symm, fun enumeration henum => ?_⟩
      obtain ⟨name, hname⟩ := henum.declared
      exact hother name enumeration (Except.ok.inj (hdeclared.symm.trans hname))
  · next hbound =>
    cases h
    refine .inr ⟨rfl, fun enumeration henum => hbound ?_⟩
    rw [henum.isName, henum.free]
    rfl

/-- A name without initializer denotes nothing. -/
theorem container_of_no_initializer (hname : base.hasKind .identifier = true)
    (hfree : b.lookup base.text = none) (h : p.initializer? base = .ok none) :
    p.container? b base = .ok none := by
  have hdenoted : p.denoted? base = .ok none := by
    rw [Project.denoted?, deepestChain, denotedWithin_succ, Site.unwrap_eq_self hname rfl, longestChain,
      chain_succ, follow, if_pos hname, h]
    rfl
  exact container_of_denoted (fun _ => hfree) hdenoted

theorem NamesEnum.container {enumeration : Site} (h : NamesEnum p b base enumeration) :
    p.container? b base = .ok none := by
  obtain ⟨name, hdeclared⟩ := h.declared
  refine container_of_no_initializer h.isName h.free ?_
  rw [Project.initializer?, hdeclared]
  rfl

theorem Project.Unknown.initializer (h : p.Unknown s) : p.initializer? s = .ok none := by
  rw [Project.initializer?, h.undeclared]
  exact congrArg Except.ok h.unspelled

namespace Project.Widens

variable {part : Site}

theorem part? (h : p.Widens s b b') {r : Role} (hpart : s.part? r = some part) : p.Widens part b b' :=
  fun name hname => h name (.of_part? hpart hname)

theorem unwrap (h : p.Widens s b b') : p.Widens s.unwrap b b' :=
  fun name hname => h name (.of_unwrap hname)

theorem accessParts (h : p.Widens s b b') (hparts : s.accessParts? = some (base, key)) :
    p.Widens base b b' := fun name hname => h name (.of_accessParts hparts hname)

/-- Wider bindings leave the names of enumerations alone. -/
theorem namesEnum_iff (h : p.Widens base b b') {enumeration : Site} :
    NamesEnum p b base enumeration ↔ NamesEnum p b' base enumeration := by
  constructor
  · rintro ⟨hname, hfree, name, hdeclared⟩
    rcases h base (.self (Site.isNameUse_of_identifier hname)) with heq | ⟨-, hunknown, -⟩
    · exact ⟨hname, heq ▸ hfree, name, hdeclared⟩
    · cases hunknown.undeclared.symm.trans hdeclared
  · rintro ⟨hname, hfree, hdeclared⟩
    rcases h base (.self (Site.isNameUse_of_identifier hname)) with heq | ⟨-, -, v, hv⟩
    · exact ⟨hname, heq ▸ hfree, hdeclared⟩
    · cases hv.symm.trans hfree

/-- Neither an unknown name nor one bound to a value denotes a literal. -/
theorem container_eq (h : p.Widens base b b') : p.container? b base = p.container? b' base := by
  by_cases hname : base.hasKind .identifier = true
  · rcases h base (.self (Site.isNameUse_of_identifier hname)) with heq | ⟨hnone, hunknown, v, hv⟩
    · unfold Project.container?
      rw [heq]
    · rw [container_of_no_initializer hname hnone hunknown.initializer, Project.container?, if_pos hname, hv]
      rfl
  · unfold Project.container?
    rw [if_neg hname, if_neg hname]

end Project.Widens

/-! ### Operators -/

theorem partValue_keeps (hrecur : p.KeepsValues U recur recur') (hs : s.Throughout U)
    (hb : BoundIn U b) (h : p.Widens s b b') (r : Role) :
    Keeps (partValue recur b s r) (partValue recur' b' s r) := by
  unfold partValue
  split
  · next hpart => exact hrecur _ _ _ (hs.part? hpart) hb (h.part? hpart)
  · exact .refl _

/-- An outcome that a number was taken from is kept. -/
theorem Keeps.numberOf {x x' : Evaluation} (h : Keeps x x') {o o' : Outcome Value} {n : Value}
    (hx : x = .ok o) (hx' : x' = .ok o') (hn : numberOf? o = some n) : o' = o := by
  cases o with
  | ok v => exact h v o' hx hx'
  | error f => cases hn

theorem binaryValue_keeps (hrecur : p.KeepsValues U recur recur') (hs : s.Throughout U)
    (hb : BoundIn U b) (hwidens : p.Widens s b b') :
    Keeps (binaryValue recur b s) (binaryValue recur' b' s) := by
  intro v o h h'
  unfold binaryValue at h h'
  cases hoperator : BinaryOperator.ofText? (operatorText s) with
  | none =>
    rw [hoperator] at h
    exact absurd h fail_ne_ok
  | some operator =>
    rw [hoperator] at h h'
    obtain ⟨left, hleft, h⟩ := bind_eq_ok.1 h
    obtain ⟨right, hright, h⟩ := bind_eq_ok.1 h
    obtain ⟨left', hleft', h'⟩ := bind_eq_ok.1 h'
    obtain ⟨right', hright', h'⟩ := bind_eq_ok.1 h'
    split at h
    · next hm hn =>
      cases (partValue_keeps hrecur hs hb hwidens .left).numberOf hleft hleft' hm
      cases (partValue_keeps hrecur hs hb hwidens .right).numberOf hright hright' hn
      rw [hm, hn] at h'
      exact Except.ok.inj (h'.symm.trans h)
    · exact absurd h fail_ne_ok

theorem unaryValue_keeps (hrecur : p.KeepsValues U recur recur') (hs : s.Throughout U)
    (hb : BoundIn U b) (hwidens : p.Widens s b b') :
    Keeps (unaryValue recur b s) (unaryValue recur' b' s) := by
  intro v o h h'
  unfold unaryValue at h h'
  cases hoperator : UnaryOperator.ofText? (operatorText s) with
  | none =>
    rw [hoperator] at h
    exact absurd h fail_ne_ok
  | some operator =>
    rw [hoperator] at h h'
    obtain ⟨argument, hargument, h⟩ := bind_eq_ok.1 h
    obtain ⟨argument', hargument', h'⟩ := bind_eq_ok.1 h'
    split at h
    · next hn =>
      cases (partValue_keeps hrecur hs hb hwidens .argument).numberOf hargument hargument' hn
      rw [hn] at h'
      exact Except.ok.inj (h'.symm.trans h)
    · exact absurd h fail_ne_ok

/-! ### Members and names -/

/-- The expression behind a key of the literal that a base denotes. -/
def entryIn (p : Project) (b : Bindings) (base : Site) (key : String) : Attempt (Option Site) := do
  match ← p.container? b base with
  | some c => entryAt? c key
  | none => return none

/-- What an access reads, once the base was not found to name an enumeration with the member. -/
theorem accessValue_eq : p.accessValue recur b base key =
    p.declaredEnumMember? recur b base.unwrap key >>= fun
      | some v => Evaluation.value v
      | none => entryIn p b base.unwrap key >>= entryValue p recur base key := by
  unfold Project.accessValue entryIn
  refine bind_congr fun declared => ?_
  cases declared with
  | some v => rfl
  | none =>
    dsimp only
    cases p.container? b base.unwrap with
    | error f => rfl
    | ok container =>
      cases container with
      | none => rfl
      | some c =>
        dsimp only [bind, Except.bind]
        cases entryAt? c key with
        | error f => rfl
        | ok entry => cases entry <;> rfl

theorem throughout_container (hp : p.EnumsApart U) (hb : BoundIn U b) (hbase : base.Throughout U)
    {c : Site} (h : p.container? b base = .ok (some c)) : IsContainer U c := by
  have hfollow {start : Site} (hstart : start.Throughout U)
      (h : (do return (← p.denoted? start).filter fun s => s.hasKind .object || s.hasKind .array :
        Attempt (Option Site)) = .ok (some c)) : IsContainer U c := by
    obtain ⟨found, hfound, h⟩ := bind_eq_ok.1 h
    obtain ⟨hfilter, hkind⟩ := Option.filter_eq_some_iff.1 (pure_eq_ok.1 h)
    have hends := hp.legible.denotedWithin deepestChain hstart.legible
    exact ⟨throughout_of_legible (hends.result hfound c hfilter), Bool.or_eq_true_iff.1 hkind⟩
  unfold Project.container? at h
  split at h
  · dsimp only at h
    cases hbound : b.lookup base.text with
    | none =>
      rw [hbound] at h
      exact hfollow hbase h
    | some bound =>
      rw [hbound] at h
      cases bound with
      | value v => cases h
      | expression t => exact hfollow (hb _ _ hbound) h
  · exact hfollow hbase h

theorem throughout_entryIn (hp : p.EnumsApart U) (hb : BoundIn U b) (hbase : base.Throughout U)
    {entry : Site} (h : entryIn p b base key = .ok (some entry)) : entry.Throughout U := by
  obtain ⟨container, hcontainer, h⟩ := bind_eq_ok.1 h
  cases container with
  | none => cases pure_eq_ok.1 h
  | some c =>
    have hends : Ends (p.Stuck [] U) (fun found => ∀ t ∈ found, t.Throughout U) (entryAt? c key) :=
      ends_entry (throughout_container hp hb hbase hcontainer)
    exact hends.result h entry rfl

theorem entryValue_keeps (hrecur : p.KeepsValues U recur recur') {entry : Option Site}
    (hentry : ∀ e ∈ entry, e.Throughout U) :
    Keeps (entryValue p recur base key entry) (entryValue p recur' base key entry) := by
  cases entry with
  | none => exact .refl _
  | some e => exact hrecur e [] [] (hentry e rfl) boundIn_nil (.refl p e [])

theorem accessValue_keeps (hp : p.EnumsApart U) (hrecur : p.KeepsValues U recur recur')
    (hbase : base.Throughout U) (hb : BoundIn U b) (hwidens : p.Widens base b b') :
    Keeps (p.accessValue recur b base key) (p.accessValue recur' b' base key) := by
  intro v o h h'
  rw [accessValue_eq] at h h'
  obtain ⟨found, hfound, h⟩ := bind_eq_ok.1 h
  obtain ⟨found', hfound', h'⟩ := bind_eq_ok.1 h'
  have hentries : entryIn p b' base.unwrap key = entryIn p b base.unwrap key := by
    rw [entryIn, entryIn, hwidens.unwrap.container_eq]
  -- Without member at either depth, the same entry is read.
  have hrest (hnone : found = none) (hnone' : found' = none) : o = .ok v := by
    cases hnone
    cases hnone'
    obtain ⟨entry, hentry, h⟩ := bind_eq_ok.1 h
    obtain ⟨entry', hentry', h'⟩ := bind_eq_ok.1 h'
    cases Except.ok.inj (hentry.symm.trans (hentries.symm.trans hentry'))
    refine entryValue_keeps hrecur ?_ v o h h'
    rintro e rfl
    exact throughout_entryIn hp hb hbase.unwrap hentry
  rcases declaredEnumMember_cases hfound with ⟨enumeration, members, hnames, hmembers, rfl⟩ | ⟨hnone, hno⟩
  · obtain ⟨name, hdeclared⟩ := hnames.declared
    have hapart := hp.apart _ name _ hbase.unwrap hdeclared
    have henum : enumeration.Throughout U := throughout_declared hp.legible hbase.unwrap hdeclared
    rcases declaredEnumMember_cases hfound' with ⟨enumeration', members', hnames', hmembers', rfl⟩ | ⟨-, hno⟩
    · obtain ⟨name', hdeclared'⟩ := hnames'.declared
      cases hdeclared.symm.trans hdeclared'
      obtain ⟨hkept, hhas⟩ := enumMembers_keeps hapart henum hrecur hmembers hmembers'
      cases hmember : members.lookup key with
      | some w =>
        rw [hmember] at h
        rw [hkept key w hmember] at h'
        cases value_eq_ok.1 h
        exact Except.ok.inj h'.symm
      | none =>
        cases hmember' : members'.lookup key with
        | none => exact hrest hmember hmember'
        | some w =>
          -- The member was left out: then the value would be one from outside the files.
          have houtside := hapart.outside key (hhas key (by rw [hmember']; exact Option.some_ne_none w))
          rw [hmember, entryIn, hnames.container] at h
          obtain ⟨entry, hentry, h⟩ := bind_eq_ok.1 h
          cases pure_eq_ok.1 hentry
          rw [entryValue, houtside] at h
          exact absurd h fail_ne_ok
    · exact absurd (hwidens.unwrap.namesEnum_iff.1 hnames) (hno enumeration)
  · rcases declaredEnumMember_cases hfound' with ⟨enumeration, -, hnames', -⟩ | ⟨hnone', -⟩
    · exact absurd (hwidens.unwrap.namesEnum_iff.2 hnames') (hno enumeration)
    · exact hrest hnone hnone'

theorem memberValue_keeps (hp : p.EnumsApart U) (hrecur : p.KeepsValues U recur recur')
    (hs : s.Throughout U) (hb : BoundIn U b) (hwidens : p.Widens s b b') :
    Keeps (p.memberValue recur b s) (p.memberValue recur' b' s) := by
  unfold Project.memberValue
  split
  · next hparts =>
    have hbase := throughout_of_legible (hs.legible.accessParts hparts)
    exact accessValue_keeps hp hrecur hbase hb (hwidens.accessParts hparts)
  · exact .refl _

theorem elementValue_keeps (hp : p.EnumsApart U) (hrecur : p.KeepsValues U recur recur')
    (hs : s.Throughout U) (hb : BoundIn U b) (hwidens : p.Widens s b b') :
    Keeps (p.elementValue recur b s) (p.elementValue recur' b' s) := by
  intro v o h h'
  obtain ⟨index, hindex, h⟩ := bind_eq_ok.1 h
  obtain ⟨index', hindex', h'⟩ := bind_eq_ok.1 h'
  have hkeeps := partValue_keeps hrecur hs hb hwidens .index
  cases index with
  | error f => exact absurd h fail_ne_ok
  | ok w =>
    cases hkeeps _ _ hindex hindex'
    cases hobject : s.part? .object with
    | none =>
      rw [hobject] at h
      cases w <;> exact absurd h fail_ne_ok
    | some base =>
      rw [hobject] at h h'
      have hread (key : String) :
          Keeps (p.accessValue recur b base key) (p.accessValue recur' b' base key) :=
        accessValue_keeps hp hrecur (hs.part? hobject) hb (hwidens.part? hobject)
      cases w with
      | text key => exact hread key v o h h'
      | integer | decimal =>
        obtain ⟨key, hkey, h⟩ := bind_eq_ok.1 h
        obtain ⟨key', hkey', h'⟩ := bind_eq_ok.1 h'
        cases hkey.symm.trans hkey'
        exact hread key v o h h'
      | null | truth | list | record => exact absurd h fail_ne_ok

theorem nameValue_keeps (hp : p.EnumsApart U) (hrecur : p.KeepsValues U recur recur')
    (hs : s.Throughout U) (hb : BoundIn U b) (hwidens : p.Widens s b b') (hname : s.isNameUse = true) :
    Keeps (p.nameValue recur b s) (p.nameValue recur' b' s) := by
  have hkeeps {e : Site} (he : e.Throughout U) := hrecur e [] [] he boundIn_nil (.refl p e [])
  intro v o h h'
  unfold Project.nameValue at h h'
  rcases hwidens s (.self hname) with heq | ⟨hnone, hunknown, -⟩
  · rw [← heq] at h'
    cases hlookup : b.lookup s.text with
    | none =>
      rw [hlookup] at h h'
      obtain ⟨initializer, hinitializer, h⟩ := bind_eq_ok.1 h
      obtain ⟨initializer', hinitializer', h'⟩ := bind_eq_ok.1 h'
      cases hinitializer.symm.trans hinitializer'
      cases initializer with
      | none => exact absurd h fail_ne_ok
      | some e =>
        have he := throughout_of_legible ((hp.legible.initializer? hs.legible).result hinitializer e rfl)
        obtain ⟨outcome, houtcome, h⟩ := bind_eq_ok.1 h
        obtain ⟨outcome', houtcome', h'⟩ := bind_eq_ok.1 h'
        cases outcome with
        | error f => exact absurd h fail_ne_ok
        | ok w =>
          cases hkeeps he w outcome' houtcome houtcome'
          exact Except.ok.inj (h'.symm.trans h)
    | some bound =>
      rw [hlookup] at h h'
      cases bound with
      | value w => exact Except.ok.inj (h'.symm.trans h)
      | expression e => exact hkeeps (hb _ _ hlookup) v o h h'
  · rw [hnone, hunknown.initializer] at h
    exact absurd h fail_ne_ok

/-! ### Expressions -/

/-- One step keeps values if the steps it asks for do. -/
theorem valueOf_keeps (hp : p.EnumsApart U) (hrecur : p.KeepsValues U recur recur')
    (hs : s.Throughout U) (hb : BoundIn U b) (hwidens : p.Widens s b b') :
    Keeps (p.valueOf recur b s) (p.valueOf recur' b' s) := by
  unfold Project.valueOf
  split
  · exact .refl _
  · exact .refl _
  · exact .refl _
  · exact .refl _
  · exact .refl _
  · next hkind =>
    exact nameValue_keeps hp hrecur hs hb hwidens (by simp [Site.isNameUse, Site.hasKind_iff, hkind])
  · next hkind =>
    exact nameValue_keeps hp hrecur hs hb hwidens (by simp [Site.isNameUse, Site.hasKind_iff, hkind])
  · exact memberValue_keeps hp hrecur hs hb hwidens
  · exact elementValue_keeps hp hrecur hs hb hwidens
  · exact binaryValue_keeps hrecur hs hb hwidens
  · exact unaryValue_keeps hrecur hs hb hwidens
  · exact .refl _

end Steps

/-! ### Depths -/

section Depths

variable {p : Project} {U : Node → Prop}

/-- Every depth keeps the values of the depths before it. -/
theorem evaluateWithin_keeps (hp : p.EnumsApart U) (depth more : Nat) :
    p.KeepsValues U (p.evaluateWithin depth) (p.evaluateWithin (depth + more)) := by
  induction depth with
  | zero => exact fun s b b' _ _ _ v o h => absurd h fail_ne_ok
  | succ depth ih =>
    rw [Nat.add_right_comm]
    exact fun s b b' hs hb hwidens => valueOf_keeps hp ih hs.unwrap hb hwidens.unwrap

/-- One expression refers to another: a name to its initializer, an access to the entry it reads. -/
inductive Refers (p : Project) : Site → Site → Prop where
  | name {s initializer : Site} : s.unwrap.hasKind .identifier = true →
    p.initializer? s.unwrap = .ok (some initializer) → Refers p s initializer
  | member {s base entry : Site} {key : String} : ReadsFrom s.unwrap base key →
    entryIn p [] base.unwrap key = .ok (some entry) → Refers p s entry

/-- A number of references, one after the other. -/
inductive RefersBy (p : Project) : Nat → Site → Site → Prop where
  | here {s : Site} : RefersBy p 0 s s
  | step {s t u : Site} {steps : Nat} : Refers p s t → RefersBy p steps t u →
    RefersBy p (steps + 1) s u

/-- What a reference comes to is what it refers to, one step deeper. -/
theorem Refers.evaluateWithin {s t : Site} (h : Refers p s t) {depth : Nat} {v : Value}
    (hs : p.evaluateWithin depth s [] = .ok (.ok v)) :
    ∃ rest, depth = rest + 1 ∧ p.evaluateWithin rest t [] = .ok (.ok v) := by
  cases depth with
  | zero => exact absurd hs fail_ne_ok
  | succ rest =>
    refine ⟨rest, rfl, ?_⟩
    rw [Project.evaluateWithin, Project.valueOf] at hs
    cases h with
    | name hname hinitializer =>
      rw [Site.kind_eq_of_hasKind hname] at hs
      obtain ⟨initializer, hfound, hs⟩ := bind_eq_ok.1 hs
      cases hinitializer.symm.trans hfound
      obtain ⟨outcome, houtcome, hs⟩ := bind_eq_ok.1 hs
      cases outcome with
      | error f => exact absurd hs fail_ne_ok
      | ok w =>
        cases value_eq_ok.1 hs
        exact houtcome
    | member hreads hentry =>
      rw [Site.kind_eq_of_hasKind hreads.isAccess] at hs
      dsimp only at hs
      rw [Project.memberValue, hreads.parts] at hs
      dsimp only at hs
      rw [accessValue_eq] at hs
      obtain ⟨declared, hdeclared, hs⟩ := bind_eq_ok.1 hs
      rcases declaredEnumMember_cases hdeclared with ⟨enumeration, -, hnames, -⟩ | ⟨rfl, -⟩
      · rw [entryIn, hnames.container] at hentry
        cases pure_eq_ok.1 hentry
      · obtain ⟨entry, hfound, hs⟩ := bind_eq_ok.1 hs
        cases hentry.symm.trans hfound
        exact hs

theorem RefersBy.evaluateWithin {steps : Nat} {s t : Site} (h : RefersBy p steps s t) {depth : Nat}
    {v : Value} (hs : p.evaluateWithin depth s [] = .ok (.ok v)) :
    ∃ rest, depth = rest + steps ∧ p.evaluateWithin rest t [] = .ok (.ok v) := by
  induction h generalizing depth with
  | here => exact ⟨depth, rfl, hs⟩
  | step hrefers _ ih =>
    obtain ⟨rest, rfl, hrest⟩ := hrefers.evaluateWithin hs
    obtain ⟨last, rfl, hlast⟩ := ih hrest
    exact ⟨last, rfl, hlast⟩

/-- **Depth keeps values.** Where enumerations are set apart, an expression that has a value at some
depth has no other one at any greater depth. So a constant has the same value however many references
lead to it, wherever it has one. -/
theorem depth_keeps_values (hp : p.EnumsApart U) :
    (∀ s b depth more v o, s.Throughout U → BoundIn U b →
      p.evaluateWithin depth s b = .ok (.ok v) → p.evaluateWithin (depth + more) s b = .ok o →
      o = .ok v) ∧
    ∀ s s' t steps steps' v v', t.Throughout U → RefersBy p steps s t → RefersBy p steps' s' t →
      p.evaluate s [] = .ok (.ok v) → p.evaluate s' [] = .ok (.ok v') → v = v' := by
  have hkeeps (s : Site) (b : Bindings) (depth more : Nat) (hs : s.Throughout U) (hb : BoundIn U b) :
      Keeps (p.evaluateWithin depth s b) (p.evaluateWithin (depth + more) s b) :=
    evaluateWithin_keeps hp depth more s b b hs hb (.refl p s b)
  refine ⟨fun s b depth more v o hs hb => hkeeps s b depth more hs hb v o, ?_⟩
  intro s s' t steps steps' v v' ht hsteps hsteps' hv hv'
  obtain ⟨rest, -, hv⟩ := hsteps.evaluateWithin hv
  obtain ⟨rest', -, hv'⟩ := hsteps'.evaluateWithin hv'
  rcases Nat.le_total rest rest' with hle | hle
  · obtain ⟨more, rfl⟩ := Nat.exists_eq_add_of_le hle
    cases hkeeps t [] rest more ht boundIn_nil v _ hv hv'
    rfl
  · obtain ⟨more, rfl⟩ := Nat.exists_eq_add_of_le hle
    cases hkeeps t [] rest' more ht boundIn_nil v' _ hv' hv
    rfl

/-! ### Enumerations by hand -/

/-- A name that no node around it declares, and no variable of the file is spelled like. -/
theorem unknown_of_undeclared {name : Site} (hname : name.Throughout U)
    (hdeclared : ∀ t : Site, U t.node → t.declaredBy name.text = .ok none)
    (hspelled : ∀ t : Site, U t.node → t.hasKind .variableDeclarator = true →
      ∀ n ∈ t.part? .name, n.text ≠ name.text) : p.Unknown name where
  undeclared := by
    have hscoped (scopes : List Site) (h : ∀ t ∈ scopes, t.Throughout U) :
        firstSome (·.declaredBy name.text) scopes = .ok none := by
      induction scopes with
      | nil => rfl
      | cons t rest ih =>
        obtain ⟨ht, hrest⟩ := List.forall_mem_cons.1 h
        rw [firstSome, hdeclared t ht.here.self]
        exact ih hrest
    rw [Project.declaration?, Site.scopedDeclaration?, hscoped _ hname.enclosing]
    rfl
  unspelled := by
    have hnone : name.program.declaratorsOf name.text = [] := by
      rw [Site.declaratorsOf_eq]
      refine List.filter_eq_nil_iff.2 fun t ht hmatch => ?_
      obtain ⟨hkind, hany⟩ := Bool.and_eq_true_iff.1 hmatch
      obtain ⟨n, hn, heq⟩ := (Option.any_eq_true _ _).1 hany
      have hU : U t.node := (hname.program.walk t ht).here.self
      exact hspelled t hU hkind n hn (eq_of_beq (Bool.and_eq_true_iff.1 heq).2)
    rw [initializerBySpelling?, hnone]
    rfl

end Depths

def memberNode (name : String) (value : Node) : Node :=
  .tree .enumAssignment none
    [.leaf .propertyIdentifier (some .name) " " name, .token none " " "=", value.withRole .value]

def enumNode (blank name : String) (members : List Node) : Node :=
  .tree .enumDeclaration none
    [.token none blank "enum", .leaf .identifier (some .name) " " name,
     .tree .enumBody (some .body)
       (.token none " " "\x7b" :: members.intersperse (.token none "" ",") ++ [.token none " " "\x7d"])]

/-- The access `base.name`. -/
def memberAccess (blank base name : String) : Node :=
  .tree .memberExpression none
    [.leaf .identifier (some .object) blank base, .token none "" ".",
     .leaf .propertyIdentifier (some .property) "" name]

/-- The sum `(1 + 1) + 1`, which takes three steps. -/
def nestedSum : Node :=
  .tree .binaryExpression none
    [.tree .parenthesizedExpression (some .left)
       [.token none " " "(",
        .tree .binaryExpression none
          [.leaf .number (some .left) "" "1", .token (some .operator) " " "+",
           .leaf .number (some .right) " " "1"],
        .token none "" ")"],
     .token (some .operator) " " "+", .leaf .number (some .right) " " "1"]

/-- `enum E { A = (1 + 1) + 1, B = A }` behind `const A = 5`. -/
def shadowedProgram : Node :=
  .tree .program none
    [constantNode "" "A" (.leaf .number none " " "5"),
     enumNode "\n" "E" [memberNode "A" nestedSum, memberNode "B" (.leaf .identifier none " " "A")],
     probeNode (memberAccess "" "E" "B")]

/-- `enum StatusType { ONLINE = (1 + 1) + 1 }`, which is the name of an enumeration outside as well. -/
def outsideProgram : Node :=
  .tree .program none
    [enumNode "" "StatusType" [memberNode "ONLINE" nestedSum],
     probeNode (memberAccess "" "StatusType" "ONLINE")]

/-- `enum E { A = 7, A = (1 + 1) + 1 }`. -/
def repeatedProgram : Node :=
  .tree .program none
    [enumNode "" "E" [memberNode "A" (.leaf .number none " " "7"), memberNode "A" nestedSum],
     probeNode (memberAccess "" "E" "A")]

/-- A member left out for its depth lets a constant, a member from outside or an earlier member
through. -/
theorem depth_lets_another_meaning_through :
    parse .plain "const A = 5;\nenum E \x7b A = (1 + 1) + 1, B = A \x7d\nprobe(E.B);" = shadowedProgram ∧
    (∃ s, firstArgument? shadowedProgram = some s ∧
      bareProject.evaluateWithin 3 s [] = .ok (.ok (.integer 5)) ∧
      bareProject.evaluateWithin 4 s [] = .ok (.ok (.integer 3))) ∧
    (∃ s, firstArgument? outsideProgram = some s ∧
      bareProject.evaluateWithin 3 s [] = .ok (.ok (.integer 0)) ∧
      bareProject.evaluateWithin 4 s [] = .ok (.ok (.integer 3))) ∧
    ∃ s, firstArgument? repeatedProgram = some s ∧
      bareProject.evaluateWithin 3 s [] = .ok (.ok (.integer 7)) ∧
      bareProject.evaluateWithin 4 s [] = .ok (.ok (.integer 3)) :=
  ⟨by decide +kernel, ⟨_, rfl, rfl, rfl⟩, ⟨_, rfl, rfl, rfl⟩, ⟨_, rfl, rfl, rfl⟩⟩

/-- `enum E { A = 1, B = A }`. -/
def chainedEnum : Node :=
  enumNode "" "E" [memberNode "A" (.leaf .number none " " "1"),
    memberNode "B" (.leaf .identifier none " " "A")]

/-- An enumeration, and a constant that refers to a member of it. -/
def chainedProgram : Node :=
  .tree .program none
    [chainedEnum, constantNode "\n" "x" (memberAccess " " "E" "B"),
     probeNode (.leaf .identifier none "" "x")]

/-- A node without body and names of its own, and with no variable but `x`. -/
def DeclaresNothing (n : Node) : Prop :=
  n.part? .body = none ∧ (n.hasKind .program || n.hasKind .statementBlock) = false ∧
    n.kind?.any Kind.isFunction = false ∧
    (n.hasKind .variableDeclarator = true → ∀ m ∈ n.part? .name, m.text = "x")

instance (n : Node) : Decidable (DeclaresNothing n) :=
  inferInstanceAs (Decidable (_ ∧ _ ∧ _ ∧ (_ → _)))

theorem mem_walk_chained : ∀ n ∈ chainedProgram.walk,
    n = chainedProgram ∨ n = chainedEnum ∨ DeclaresNothing n := by
  decide +kernel

/-- Nothing else in the program is called by the name of a member. -/
theorem unknown_in_chained {name : Site} (hname : name.Throughout (· ∈ chainedProgram.walk))
    (htext : name.text = "A" ∨ name.text = "B") : bareProject.Unknown name := by
  refine unknown_of_undeclared hname (fun t ht => ?_) fun t ht hkind n hn => ?_
  · obtain ⟨file, above, node⟩ := t
    rcases mem_walk_chained node ht with rfl | rfl | ⟨-, hscope, hfunction, -⟩
    · rcases htext with htext | htext <;> rw [htext] <;> rfl
    · rcases htext with htext | htext <;> rw [htext] <;> rfl
    · unfold Site.declaredBy
      rw [Site.isFunction, Site.kind?, hfunction, Site.hasKind, Site.hasKind, hscope]
      rfl
  · obtain ⟨file, above, node⟩ := t
    rcases mem_walk_chained node ht with rfl | rfl | ⟨-, -, -, hvariable⟩
    · cases hkind
    · cases hkind
    · obtain ⟨m, hm, rfl⟩ := Option.map_eq_some_iff.1 hn
      have hx : m.text = "x" := hvariable hkind m hm
      change m.text ≠ name.text
      rcases htext with htext | htext <;> rw [hx, htext] <;> decide

theorem enumsApart_chained : bareProject.EnumsApart (· ∈ chainedProgram.walk) where
  files := List.forall_mem_nil _
  apart base name e hbase hdeclared := by
    have hlegible : bareProject.Legible (· ∈ chainedProgram.walk) fun _ => True :=
      legible_of_files (List.forall_mem_nil _)
    have he := throughout_declared hlegible hbase hdeclared
    have houtside (name : String) (h : name = "A" ∨ name = "B") :
        bareProject.enumMember? base.text name = none := by
      have htables : ∀ t ∈ platformEnums, t.2.lookup "A" = none ∧ t.2.lookup "B" = none := by decide
      refine Option.bind_eq_none_iff.2 fun members hmembers => ?_
      obtain ⟨hA, hB⟩ := htables _ (mem_of_lookup hmembers)
      rcases h with rfl | rfl
      · exact hA
      · exact hB
    have hempty (h : membersOf e = []) : bareProject.SetApart base e := by
      have hno (name : String) : ¬HasMember e name := by
        rintro ⟨member, hmember, -⟩
        rw [h] at hmember
        cases hmember
      exact ⟨h ▸ .nil, fun _ _ _ _ name _ hhas => absurd hhas (hno name.text),
        fun name hhas => absurd hhas (hno name)⟩
    obtain ⟨file, above, node⟩ := e
    rcases mem_walk_chained node he.here.self with rfl | rfl | ⟨hbody, -⟩
    · exact hempty rfl
    · obtain ⟨first, second, hmembers, hfirst, hsecond⟩ : ∃ first second,
          membersOf ⟨file, above, chainedEnum⟩ = [first, second] ∧
          (∀ name, IsNamed first name ↔ name = "A") ∧ ∀ name, IsNamed second name ↔ name = "B" :=
        ⟨_, _, rfl, isNamed_iff_of_spelled rfl rfl, isNamed_iff_of_spelled rfl rfl⟩
      have hhas (name : String) (h : HasMember ⟨file, above, chainedEnum⟩ name) :
          name = "A" ∨ name = "B" := by
        obtain ⟨member, hmember, hname⟩ := h
        rw [hmembers, List.mem_cons, List.mem_singleton] at hmember
        rcases hmember with rfl | rfl
        · exact .inl ((hfirst name).1 hname)
        · exact .inr ((hsecond name).1 hname)
      refine ⟨?_, fun member hmember initializer hinitializer name hname h => ?_,
        fun name h => houtside name (hhas name h)⟩
      · rw [hmembers, List.pairwise_pair]
        intro name hA hB
        exact absurd (((hfirst name).1 hA).symm.trans ((hsecond name).1 hB)) (by decide)
      · have hthroughout := throughout_initializer he hmember hinitializer
        exact unknown_in_chained (hthroughout.walk name hname.below) (hhas _ h)
    · refine hempty ?_
      rw [membersOf, Site.part?, hbody]
      rfl

theorem chained_member_keeps_value :
    parse .plain "enum E \x7b A = 1, B = A \x7d\nconst x = E.B;\nprobe(x);" = chainedProgram ∧
    bareProject.EnumsApart (· ∈ chainedProgram.walk) ∧
    ∃ s t, firstArgument? chainedProgram = some s ∧ t.Throughout (· ∈ chainedProgram.walk) ∧
      RefersBy bareProject 1 s t ∧ RefersBy bareProject 0 t t ∧
      (∀ v v', bareProject.evaluate s [] = .ok (.ok v) → bareProject.evaluate t [] = .ok (.ok v') →
        v = v') ∧
      bareProject.evaluateWithin 3 t [] = .ok (.ok (.integer 1)) ∧
      ∀ more o, bareProject.evaluateWithin (3 + more) t [] = .ok o → o = .ok (.integer 1) := by
  obtain ⟨s, t, hs, hname, hinitializer, ht⟩ : ∃ s t, firstArgument? chainedProgram = some s ∧
      s.unwrap.hasKind .identifier = true ∧ bareProject.initializer? s.unwrap = .ok (some t) ∧
      bareProject.evaluateWithin 3 t [] = .ok (.ok (.integer 1)) := ⟨_, _, rfl, rfl, rfl, rfl⟩
  have hprogram : chainedProgram.Throughout (· ∈ chainedProgram.walk) := fun _ => id
  have hlegible := enumsApart_chained.legible.initializer?
    (throughout_firstArgument hprogram hs).unwrap.legible
  have hthroughout := throughout_of_legible (hlegible.result hinitializer t rfl)
  have hrefers : RefersBy bareProject 1 s t := .step (.name hname hinitializer) .here
  obtain ⟨hdepth, hchains⟩ := depth_keeps_values enumsApart_chained
  exact ⟨by decide +kernel, enumsApart_chained, s, t, hs, hthroughout, hrefers, .here,
    fun v v' => hchains s t t 1 0 v v' hthroughout hrefers .here, ht,
    fun more o => hdepth t [] 3 more _ o hthroughout boundIn_nil ht⟩

end SettingsHarvest
