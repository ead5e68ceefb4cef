import Mathlib.Data.List.Forall2
import SettingsHarvest.Proofs.Answers
import SettingsHarvest.Proofs.Depth

/-! The values of the members of an enumeration.

A reading of an enumeration keeps a running number. What the members come to can be told without it, by
their positions (`Numbered`): a member with an initializer has the value of that under the names of the
members before it, and any other has its own index, or counts on from the nearest member before it that
has an initializer, if that one came to a number. One step of a reading finds what this says of one member
(`EnumReading.Tracks.step`), so that a whole reading does, and it is stopped only where an evaluation is
(`enum_members_numbered`). -/
namespace SettingsHarvest
open Syntax

/-! ### Members by position -/

/-- A member of an enumeration as it is written. -/
structure EnumMember where
  name : String
  initializer : Option Site

/-- The node of the body that declares a member. -/
structure EnumMember.IsAt (m : EnumMember) (member : Site) : Prop where
  named : IsNamed member m.name
  initializer : (memberParts member).2 = m.initializer

/-- An enumeration with its members, whose names can all be read. -/
def HasMembers (enumeration : Site) (ms : List EnumMember) : Prop :=
  List.Forall₂ (fun member m => m.IsAt member) (membersOf enumeration) ms

/-- Members are those of an enumeration once their names are read. -/
theorem exists_hasMembers {enumeration : Site} {names : List String}
    (h : List.Forall₂ IsNamed (membersOf enumeration) names) :
    ∃ ms, HasMembers enumeration ms ∧ ms.map (·.name) = names := by
  unfold HasMembers
  generalize membersOf enumeration = members at h ⊢
  induction h with
  | nil => exact ⟨[], .nil, rfl⟩
  | @cons member name _ _ hname _ ih =>
    obtain ⟨ms, hms, rfl⟩ := ih
    exact ⟨⟨name, (memberParts member).2⟩ :: ms, .cons ⟨hname, rfl⟩ hms, rfl⟩

/-- The initializer of the member at an index, if it has one. -/
def initializerAt (ms : List EnumMember) (i : Nat) : Option Site := ms[i]?.bind (·.initializer)

/-- The members that have values, in order, each with its value. -/
def valued (ms : List EnumMember) (vals : List (Option Value)) : List (String × Value) :=
  (ms.zip vals).filterMap fun (m, found) => found.map (m.name, ·)

/-- The names of the members that have values, bound to them. -/
def boundTo (ms : List EnumMember) (vals : List (Option Value)) : Bindings :=
  (valued ms vals).map fun (name, v) => (name, .value v)

/-- The nearest member before an index that has an initializer. -/
structure NearestInitialized (ms : List EnumMember) (i j : Nat) : Prop where
  before : j < i
  initialized : initializerAt ms j ≠ none
  between : ∀ k, j < k → k < i → initializerAt ms k = none

/-- A floating-point number with one added a number of times. -/
def Binary64.countedOn (x : Binary64) : Nat → Binary64
  | 0 => x
  | k + 1 => (x.countedOn k).add (.ofInt 1)

/-- What a member without initializer has so many places behind one that was found to have a value, or
none: numbers are counted on from, and nothing else is. -/
def countedOn : Option Value → Nat → Option Value
  | some (.integer n), k => some (.integer (n + k))
  | some (.decimal x), k => some (.decimal (x.countedOn k))
  | _, _ => none

/-- The value, if any, of a member without initializer at an index, by what is before it. -/
inductive NumberAt (ms : List EnumMember) (vals : List (Option Value)) (i : Nat) :
    Option Value → Prop where
  | first : (∀ j < i, initializerAt ms j = none) → NumberAt ms vals i (some (.integer i))
  | after {j : Nat} {found : Option Value} : NearestInitialized ms i j → vals[j]? = some found →
      NumberAt ms vals i (countedOn found (i - j))

/-- The values that members have, none for those left out. -/
structure Numbered (recur : Evaluator) (ms : List EnumMember) (vals : List (Option Value)) : Prop where
  length : vals.length = ms.length
  initialized : ∀ i s, initializerAt ms i = some s → ∃ outcome,
    recur s (boundTo (ms.take i) (vals.take i)) = .ok outcome ∧ vals[i]? = some outcome.toOption
  counted : ∀ i < ms.length, initializerAt ms i = none → ∃ found,
    NumberAt ms vals i found ∧ vals[i]? = some found

/-- The evaluation of the initializer of a member, behind others that have their values, meets a fault. -/
inductive StopsAt (recur : Evaluator) (ms : List EnumMember) (f : Fault) : Prop where
  | intro {done later : List EnumMember} {m : EnumMember} {s : Site} {vals : List (Option Value)} :
    ms = done ++ m :: later → m.initializer = some s → Numbered recur done vals →
    recur s (boundTo done vals) = .error f → StopsAt recur ms f

/-! ### What is before an index -/

section Before

variable {ms rest : List EnumMember} {vals more : List (Option Value)} {m : EnumMember} {i j : Nat}
  {found : Option Value}

theorem initializerAt_append (h : i < ms.length) : initializerAt (ms ++ rest) i = initializerAt ms i := by
  simp [initializerAt, List.getElem?_append_left h]

theorem initializerAt_length : initializerAt (ms ++ m :: rest) ms.length = m.initializer := by
  simp [initializerAt]

theorem lt_length_of_initializerAt {s : Site} (h : initializerAt ms i = some s) : i < ms.length := by
  obtain ⟨m, hm, -⟩ := Option.bind_eq_some_iff.1 h
  exact (List.getElem?_eq_some_iff.1 hm).1

theorem lt_or_eq_length (h : i < (ms ++ [m]).length) : i < ms.length ∨ i = ms.length := by
  rw [List.length_append, List.length_singleton] at h
  exact Nat.lt_succ_iff_lt_or_eq.1 h

theorem NearestInitialized.congr {ms' : List EnumMember}
    (hms : ∀ k < i, initializerAt ms k = initializerAt ms' k) (h : NearestInitialized ms i j) :
    NearestInitialized ms' i j where
  before := h.before
  initialized := hms j h.before ▸ h.initialized
  between k hj hk := (hms k hk).symm.trans (h.between k hj hk)

/-- The number at an index is told by what is before it. -/
theorem NumberAt.congr {ms' : List EnumMember} {vals' : List (Option Value)}
    (hms : ∀ k < i, initializerAt ms k = initializerAt ms' k) (hvals : ∀ k < i, vals[k]? = vals'[k]?)
    (h : NumberAt ms vals i found) : NumberAt ms' vals' i found := by
  cases h with
  | first hnone => exact .first fun k hk => (hms k hk).symm.trans (hnone k hk)
  | after hnearest hval => exact .after (hnearest.congr hms) ((hvals _ hnearest.before).symm.trans hval)

theorem numberAt_append (hlength : vals.length = ms.length) (h : i ≤ ms.length) :
    NumberAt (ms ++ rest) (vals ++ more) i found ↔ NumberAt ms vals i found := by
  have hms (k : Nat) (hk : k < i) : initializerAt (ms ++ rest) k = initializerAt ms k :=
    initializerAt_append (Nat.lt_of_lt_of_le hk h)
  have hvals (k : Nat) (hk : k < i) : (vals ++ more)[k]? = vals[k]? :=
    List.getElem?_append_left (by omega)
  exact ⟨.congr hms hvals, .congr (fun k hk => (hms k hk).symm) fun k hk => (hvals k hk).symm⟩

theorem NearestInitialized.unique {j' : Nat} (h : NearestInitialized ms i j)
    (h' : NearestInitialized ms i j') : j = j' := by
  rcases Nat.lt_trichotomy j j' with hlt | heq | hlt
  · exact absurd (h.between j' hlt h'.before) h'.initialized
  · exact heq
  · exact absurd (h'.between j hlt h.before) h.initialized

/-- There is one number at most for a member. -/
theorem NumberAt.unique {found' : Option Value} (h : NumberAt ms vals i found)
    (h' : NumberAt ms vals i found') : found = found' := by
  cases h with
  | first hnone =>
    cases h' with
    | first => rfl
    | after hnearest => exact absurd (hnone _ hnearest.before) hnearest.initialized
  | after hnearest hval =>
    cases h' with
    | first hnone => exact absurd (hnone _ hnearest.before) hnearest.initialized
    | after hnearest' hval' =>
      obtain rfl := hnearest.unique hnearest'
      cases hval.symm.trans hval'
      rfl

end Before

/-! ### One more member -/

/-- What is found for a member behind others that have their values. -/
inductive FoundFor (recur : Evaluator) (ms : List EnumMember) (vals : List (Option Value)) (m : EnumMember) :
    Option Value → Prop where
  | number {found : Option Value} : m.initializer = none → NumberAt ms vals ms.length found →
      FoundFor recur ms vals m found
  | evaluated {s : Site} {outcome : Outcome Value} : m.initializer = some s →
      recur s (boundTo ms vals) = .ok outcome → FoundFor recur ms vals m outcome.toOption

section Step

variable {recur : Evaluator} {ms rest : List EnumMember} {vals more : List (Option Value)} {m : EnumMember}
  {found : Option Value}

theorem Numbered.snoc (h : Numbered recur ms vals) (hfound : FoundFor recur ms vals m found) :
    Numbered recur (ms ++ [m]) (vals ++ [found]) where
  length := by simp [h.length]
  initialized i s hs := by
    rcases lt_or_eq_length (lt_length_of_initializerAt hs) with hlt | rfl
    · rw [initializerAt_append hlt] at hs
      obtain ⟨outcome, houtcome, hval⟩ := h.initialized i s hs
      have hvals : i < vals.length := h.length.symm ▸ hlt
      rw [List.take_append_of_le_length hlt.le, List.take_append_of_le_length hvals.le,
        List.getElem?_append_left hvals]
      exact ⟨outcome, houtcome, hval⟩
    · rw [initializerAt_length] at hs
      cases hfound with
      | number hnone => cases hnone.symm.trans hs
      | @evaluated s' outcome hs' houtcome =>
        cases hs'.symm.trans hs
        rw [List.take_left, ← h.length, List.take_left]
        exact ⟨outcome, houtcome, by simp⟩
  counted i hi hnone := by
    rcases lt_or_eq_length hi with hlt | rfl
    · rw [initializerAt_append hlt] at hnone
      obtain ⟨found', hnumber, hval⟩ := h.counted i hlt hnone
      rw [List.getElem?_append_left (h.length.symm ▸ hlt)]
      exact ⟨found', (numberAt_append h.length hlt.le).2 hnumber, hval⟩
    · rw [initializerAt_length] at hnone
      cases hfound with
      | number _ hnumber =>
        refine ⟨found, (numberAt_append h.length le_rfl).2 hnumber, ?_⟩
        rw [← h.length]
        simp
      | evaluated hs => cases hs.symm.trans hnone

/-- The first of the members ahead has the value that is found for it. -/
theorem Numbered.foundFor (h : Numbered recur (ms ++ m :: rest) (vals ++ more))
    (hlength : vals.length = ms.length) :
    ∃ found others, more = found :: others ∧ FoundFor recur ms vals m found := by
  have hfirst {found : Option Value} (hval : (vals ++ more)[ms.length]? = some found) :
      ∃ others, more = found :: others := by
    rw [← hlength, List.getElem?_append_right le_rfl, Nat.sub_self] at hval
    cases more with
    | nil => cases hval
    | cons first others =>
      cases hval
      exact ⟨others, rfl⟩
  cases hinitializer : m.initializer with
  | none =>
    obtain ⟨found, hnumber, hval⟩ :=
      h.counted ms.length (by simp) (initializerAt_length.trans hinitializer)
    obtain ⟨others, hmore⟩ := hfirst hval
    exact ⟨found, others, hmore, .number hinitializer ((numberAt_append hlength le_rfl).1 hnumber)⟩
  | some s =>
    obtain ⟨outcome, houtcome, hval⟩ :=
      h.initialized ms.length s (initializerAt_length.trans hinitializer)
    obtain ⟨others, hmore⟩ := hfirst hval
    rw [List.take_left, ← hlength, List.take_left] at houtcome
    exact ⟨outcome.toOption, others, hmore, .evaluated hinitializer houtcome⟩

theorem countedOn_one (found : Option Value) : countedOn found 1 = found.bind Value.successor := by
  cases found with
  | none => rfl
  | some v => cases v <;> rfl

theorem countedOn_succ (found : Option Value) (k : Nat) :
    countedOn found (k + 1) = (countedOn found k).bind Value.successor := by
  cases found with
  | none => rfl
  | some v =>
    cases v with
    | integer n => simp [countedOn, Value.successor, Int.add_assoc]
    | decimal x => rfl
    | null | truth | text | list | record => rfl

/-- The next number is the one after what was found. -/
theorem FoundFor.next (hlength : vals.length = ms.length) (h : FoundFor recur ms vals m found) :
    NumberAt (ms ++ [m]) (vals ++ [found]) (ms.length + 1) (found.bind Value.successor) := by
  cases h with
  | number hnone hnumber =>
    have hbehind : initializerAt (ms ++ [m]) ms.length = none := initializerAt_length.trans hnone
    cases hnumber with
    | first hfirst =>
      refine .first fun j hj => ?_
      rcases Nat.lt_succ_iff_lt_or_eq.1 hj with hlt | rfl
      · rw [initializerAt_append hlt, hfirst j hlt]
      · exact hbehind
    | @after j found hnearest hval =>
      have hj : j ≤ ms.length := hnearest.before.le
      rw [← countedOn_succ, ← Nat.sub_add_comm hj]
      refine .after ⟨Nat.lt_succ_of_lt hnearest.before, ?_, fun k hk hlt => ?_⟩ ?_
      · rw [initializerAt_append hnearest.before]
        exact hnearest.initialized
      · rcases Nat.lt_succ_iff_lt_or_eq.1 hlt with hlt | rfl
        · rw [initializerAt_append hlt, hnearest.between k hk hlt]
        · exact hbehind
      · rw [List.getElem?_append_left (hlength.symm ▸ hnearest.before), hval]
  | @evaluated s outcome hs _ =>
    have hnearest : NearestInitialized (ms ++ [m]) (ms.length + 1) ms.length :=
      ⟨Nat.lt_succ_self _, by simp [initializerAt_length, hs], fun k hk hlt => by omega⟩
    have hnumber : NumberAt (ms ++ [m]) (vals ++ [outcome.toOption]) (ms.length + 1)
        (countedOn outcome.toOption (ms.length + 1 - ms.length)) :=
      .after hnearest (by simp [← hlength])
    rwa [Nat.add_sub_cancel_left, countedOn_one] at hnumber

end Step

/-! ### Readings -/

namespace EnumReading

variable {recur : Evaluator} {ms rest : List EnumMember} {vals more : List (Option Value)} {m : EnumMember}
  {r r' : EnumReading} {member : Site} {f : Fault} {found : Option Value}

/-- A member is taken with the next number, or with what its initializer comes to. -/
theorem add_eq (hm : m.IsAt member) : r.add recur member =
    match m.initializer with
    | none => .ok (r.take m.name r.next)
    | some s => (recur s r.bindings).map fun outcome => r.take m.name outcome.toOption := by
  obtain ⟨name, initializer⟩ := m
  obtain ⟨⟨spelled, hspelled, hname⟩, hinitializer⟩ := hm
  unfold add
  generalize hparts : (if member.hasKind .enumAssignment then (member.part? .name, member.part? .value)
    else (some member, none)) = parts
  have hparts : memberParts member = parts := hparts
  obtain ⟨name?, value?⟩ := parts
  rw [hparts] at hspelled hinitializer
  cases hspelled
  cases hinitializer
  show (memberName spelled >>= fun name => _) = _
  rw [hname]
  cases initializer with
  | none =>
    obtain ⟨members, next⟩ := r
    cases next <;> rfl
  | some s =>
    show (recur s r.bindings >>= fun outcome => _) = Except.map _ (recur s r.bindings)
    cases recur s r.bindings with
    | error f => rfl
    | ok outcome => cases outcome <;> rfl

/-- A reading of members that has found their values, and the number for the next one. -/
structure Tracks (recur : Evaluator) (ms : List EnumMember) (vals : List (Option Value)) (r : EnumReading) :
    Prop where
  numbered : Numbered recur ms vals
  members : r.members = valued ms vals
  next : NumberAt ms vals ms.length r.next

theorem tracks_start (recur : Evaluator) : Tracks recur [] [] ⟨[], some (.integer 0)⟩ where
  numbered := ⟨rfl, nofun, nofun⟩
  members := rfl
  next := .first nofun

theorem valued_snoc (hlength : vals.length = ms.length) : valued (ms ++ [m]) (vals ++ [found]) =
    valued ms vals ++ (found.map (m.name, ·)).toList := by
  rw [valued, List.zip_append hlength.symm, List.filterMap_append]
  cases found <;> rfl

theorem mem_names_of_valued {name : String} (h : name ∈ keysOf (valued ms vals)) :
    name ∈ ms.map (·.name) := by
  obtain ⟨v, hv⟩ := mem_keysOf.1 h
  obtain ⟨⟨m, found⟩, hm, hfound⟩ := List.mem_filterMap.1 hv
  obtain ⟨w, -, heq⟩ := Option.map_eq_some_iff.1 hfound
  cases heq
  exact List.mem_map_of_mem (List.of_mem_zip hm).1

theorem not_mem_of_nodup (h : ((ms ++ m :: rest).map (·.name)).Nodup) : m.name ∉ ms.map (·.name) := by
  rw [List.map_append, List.map_cons, List.nodup_append] at h
  exact fun hm => h.2.2 _ hm _ List.mem_cons_self rfl

namespace Tracks

/-- Reading one more member of a new name. -/
theorem step (h : Tracks recur ms vals r) (hfound : FoundFor recur ms vals m found)
    (hnew : m.name ∉ ms.map (·.name)) : Tracks recur (ms ++ [m]) (vals ++ [found]) (r.take m.name found) where
  numbered := h.numbered.snoc hfound
  members := by
    have hkey : m.name ∉ keysOf r.members := fun hkey => hnew (mem_names_of_valued (h.members ▸ hkey))
    rw [valued_snoc h.numbered.length, ← h.members]
    cases found with
    | none => exact (List.append_nil _).symm
    | some v => exact assign_of_not_mem hkey
  next := by
    have hnext : (r.take m.name found).next = found.bind Value.successor := by cases found <;> rfl
    rw [List.length_append, List.length_singleton, hnext]
    exact hfound.next h.numbered.length

theorem bindings_eq (h : Tracks recur ms vals r) : r.bindings = boundTo ms vals := by
  rw [bindings, h.members]
  rfl

/-- A member that can be read is taken with what is found for it. -/
theorem add_ok (h : Tracks recur ms vals r) (hm : m.IsAt member) :
    r.add recur member = .ok r' ↔ ∃ found, FoundFor recur ms vals m found ∧ r' = r.take m.name found := by
  rw [add_eq hm, h.bindings_eq]
  cases hinitializer : m.initializer with
  | none =>
    constructor
    · intro hr
      exact ⟨r.next, .number hinitializer h.next, (Except.ok.inj hr).symm⟩
    · rintro ⟨found, hfound, rfl⟩
      cases hfound with
      | number _ hnumber => rw [h.next.unique hnumber]
      | evaluated hs => cases hinitializer.symm.trans hs
  | some s =>
    constructor
    · intro hr
      obtain ⟨outcome, houtcome, heq⟩ := exists_of_map hr
      exact ⟨outcome.toOption, .evaluated hinitializer houtcome, heq.symm⟩
    · rintro ⟨found, hfound, rfl⟩
      cases hfound with
      | number hnone => cases hinitializer.symm.trans hnone
      | evaluated hs houtcome =>
        cases hinitializer.symm.trans hs
        show Except.map _ (recur s (boundTo ms vals)) = _
        rw [houtcome]
        rfl

/-- Only an evaluation keeps a member from being read. -/
theorem add_error (h : Tracks recur ms vals r) (hm : m.IsAt member) :
    r.add recur member = .error f ↔
      ∃ s, m.initializer = some s ∧ recur s (boundTo ms vals) = .error f := by
  rw [add_eq hm, h.bindings_eq]
  cases hinitializer : m.initializer with
  | none => simp
  | some s =>
    cases houtcome : recur s (boundTo ms vals) <;> simp [Except.map, houtcome]

/-- Members that were all read have their values. -/
theorem of_run {sites : List Site} (h : Tracks recur ms vals r)
    (hsites : List.Forall₂ (fun member m => m.IsAt member) sites rest)
    (hnodup : ((ms ++ rest).map (·.name)).Nodup) (hrun : sites.foldlM (add recur) r = .ok r') :
    ∃ more, Tracks recur (ms ++ rest) (vals ++ more) r' := by
  induction hsites generalizing ms vals r with
  | nil =>
    cases pure_eq_ok.1 hrun
    exact ⟨[], by simpa using h⟩
  | @cons member m sites rest hm _ ih =>
    rw [List.foldlM_cons] at hrun
    obtain ⟨next, hnext, hrun⟩ := bind_eq_ok.1 hrun
    obtain ⟨found, hfound, rfl⟩ := (h.add_ok hm).1 hnext
    have hnew := not_mem_of_nodup hnodup
    rw [List.append_cons] at hnodup
    obtain ⟨more, hmore⟩ := ih (h.step hfound hnew) hnodup hrun
    exact ⟨found :: more, by simpa using hmore⟩

/-- Members that have values are read with these. -/
theorem exists_run {sites : List Site} (h : Tracks recur ms vals r)
    (hsites : List.Forall₂ (fun member m => m.IsAt member) sites rest)
    (hnodup : ((ms ++ rest).map (·.name)).Nodup) (hnumbered : Numbered recur (ms ++ rest) (vals ++ more)) :
    ∃ r', sites.foldlM (add recur) r = .ok r' ∧ Tracks recur (ms ++ rest) (vals ++ more) r' := by
  induction hsites generalizing ms vals more r with
  | nil =>
    have hlength := hnumbered.length
    rw [List.append_nil, List.length_append, h.numbered.length] at hlength
    obtain rfl : more = [] := List.eq_nil_of_length_eq_zero (by omega)
    exact ⟨r, rfl, by simpa using h⟩
  | @cons member m sites rest hm _ ih =>
    obtain ⟨found, others, rfl, hfound⟩ := hnumbered.foundFor h.numbered.length
    have hnew := not_mem_of_nodup hnodup
    rw [List.append_cons] at hnodup
    rw [List.append_cons ms, List.append_cons vals] at hnumbered ⊢
    rw [List.foldlM_cons, (h.add_ok hm).2 ⟨found, hfound, rfl⟩]
    exact ih (h.step hfound hnew) hnodup hnumbered

/-- What stops a reading is the evaluation of an initializer. -/
theorem of_fault {sites : List Site} (h : Tracks recur ms vals r)
    (hsites : List.Forall₂ (fun member m => m.IsAt member) sites rest)
    (hnodup : ((ms ++ rest).map (·.name)).Nodup) (hrun : sites.foldlM (add recur) r = .error f) :
    StopsAt recur (ms ++ rest) f := by
  induction hsites generalizing ms vals r with
  | nil => cases hrun
  | @cons member m sites rest hm _ ih =>
    rw [List.foldlM_cons] at hrun
    cases hadd : r.add recur member with
    | error f' =>
      rw [hadd] at hrun
      cases hrun
      obtain ⟨s, hs, hfault⟩ := (h.add_error hm).1 hadd
      exact ⟨rfl, hs, h.numbered, hfault⟩
    | ok next =>
      rw [hadd] at hrun
      obtain ⟨found, hfound, rfl⟩ := (h.add_ok hm).1 hadd
      have hnew := not_mem_of_nodup hnodup
      rw [List.append_cons] at hnodup ⊢
      exact ih (h.step hfound hnew) hnodup hrun

end Tracks

end EnumReading

/-! ### Enumerations -/

section Enumerations

variable {recur : Evaluator} {enumeration : Site} {ms : List EnumMember} {f : Fault}
  {result : List (String × Value)}

theorem enumMembers_ok_iff (hms : HasMembers enumeration ms) (hnodup : (ms.map (·.name)).Nodup) :
    enumMembersBy recur enumeration = .ok result ↔
      ∃ vals, Numbered recur ms vals ∧ result = valued ms vals := by
  rw [enumMembersBy_eq]
  constructor
  · intro h
    obtain ⟨r, hr, hresult⟩ := bind_eq_ok.1 h
    obtain ⟨vals, htracks⟩ := (EnumReading.tracks_start recur).of_run hms hnodup hr
    exact ⟨vals, htracks.numbered, (pure_eq_ok.1 hresult).symm.trans htracks.members⟩
  · rintro ⟨vals, hnumbered, rfl⟩
    obtain ⟨r, hr, htracks⟩ := (EnumReading.tracks_start recur).exists_run hms hnodup hnumbered
    rw [hr]
    exact congrArg Except.ok htracks.members

theorem enumMembers_error_iff (hms : HasMembers enumeration ms) (hnodup : (ms.map (·.name)).Nodup) :
    enumMembersBy recur enumeration = .error f ↔ StopsAt recur ms f := by
  rw [enumMembersBy_eq]
  constructor
  · intro h
    cases hrun : (membersOf enumeration).foldlM (EnumReading.add recur) ⟨[], some (.integer 0)⟩ with
    | ok r =>
      rw [hrun] at h
      cases h
    | error f' =>
      rw [hrun] at h
      cases h
      exact (EnumReading.tracks_start recur).of_fault hms hnodup hrun
  · rintro ⟨rfl, hs, hnumbered, hfault⟩
    have hdone := List.forall₂_take_append _ _ _ hms
    have hlater := List.forall₂_drop_append _ _ _ hms
    rw [List.map_append, List.nodup_append] at hnodup
    obtain ⟨r, hr, htracks⟩ := (EnumReading.tracks_start recur).exists_run hdone hnodup.1 hnumbered
    rw [← List.take_append_drop _ (membersOf enumeration), List.foldlM_append, hr]
    generalize (membersOf enumeration).drop _ = later at hlater ⊢
    cases hlater with
    | cons hm =>
      have hadd := (htracks.add_error hm).2 ⟨_, hs, hfault⟩
      show (List.foldlM _ r (_ :: _) >>= _) = _
      rw [List.foldlM_cons, hadd]
      rfl

/-- **Members by position.** What is read of an enumeration whose members have different names are, in
order, the members that have values: those that their initializers come to under the names before them,
and those that their positions tell. It is not read only if an evaluation behind members with values
meets a fault. -/
theorem enum_members_numbered (p : Project) (depth : Nat) (hms : HasMembers enumeration ms)
    (hnodup : (ms.map (·.name)).Nodup) :
    (∀ result, enumMembersBy (p.evaluateWithin depth) enumeration = .ok result ↔
      ∃ vals, Numbered (p.evaluateWithin depth) ms vals ∧ result = valued ms vals) ∧
    ∀ f, enumMembersBy (p.evaluateWithin depth) enumeration = .error f ↔
      StopsAt (p.evaluateWithin depth) ms f :=
  ⟨fun _ => enumMembers_ok_iff hms hnodup, fun _ => enumMembers_error_iff hms hnodup⟩

end Enumerations

/-- A member without initializer. -/
def bareMember (name : String) : Node := .leaf .propertyIdentifier (some .name) " " name

/-- `enum E { A, B = 5, C, D = "x", F, G = B, H }`. -/
def mixedEnum : Node :=
  enumNode "" "E"
    [bareMember "A", memberNode "B" (.leaf .number none " " "5"), bareMember "C",
     memberNode "D" (.leaf .string none " " "\"x\""), bareMember "F",
     memberNode "G" (.leaf .identifier none " " "B"), bareMember "H"]

theorem mixed_members_numbered :
    parse .plain "enum E \x7b A, B = 5, C, D = \"x\", F, G = B, H \x7d" =
      .tree .program none [mixedEnum] ∧
    ∃ ms, HasMembers (siteOf mixedEnum) ms ∧ (ms.map (·.name)).Nodup ∧
      (∃ vals, Numbered (bareProject.evaluateWithin 5) ms vals ∧
        valued ms vals = [("A", .integer 0), ("B", .integer 5), ("C", .integer 6), ("D", .text "x"),
          ("G", .integer 5), ("H", .integer 6)]) ∧
      ∀ f, ¬StopsAt (bareProject.evaluateWithin 5) ms f := by
  have hnamed : List.Forall₂ IsNamed (membersOf (siteOf mixedEnum)) ["A", "B", "C", "D", "F", "G", "H"] :=
    .cons ⟨_, rfl, rfl⟩ <| .cons ⟨_, rfl, rfl⟩ <| .cons ⟨_, rfl, rfl⟩ <| .cons ⟨_, rfl, rfl⟩ <|
    .cons ⟨_, rfl, rfl⟩ <| .cons ⟨_, rfl, rfl⟩ <| .cons ⟨_, rfl, rfl⟩ .nil
  obtain ⟨ms, hms, hnames⟩ := exists_hasMembers hnamed
  have hnodup : (ms.map (·.name)).Nodup := by
    rw [hnames]
    decide
  obtain ⟨hread, hstop⟩ := enum_members_numbered bareProject 5 hms hnodup
  obtain ⟨vals, hnumbered, hvalued⟩ := (hread _).1 rfl
  refine ⟨by decide +kernel, ms, hms, hnodup, ⟨vals, hnumbered, hvalued.symm⟩, fun f hf => ?_⟩
  cases (hstop f).2 hf

/-- `enum E { A = ["x"]["²"], B = 1 }`. -/
def superscriptEnum : Node :=
  enumNode "" "E"
    [memberNode "A" (.tree .subscriptExpression none
      [.tree .array (some .object) [.token none " " "[", textLiteral "x", .token none "" "]"],
       .token none "" "[", (textLiteral "²").withRole .index, .token none "" "]"]),
     memberNode "B" (.leaf .number none " " "1")]

/-- A member whose initializer cannot be evaluated at all takes the others with it. -/
theorem members_beside_fault_unread :
    parse .plain "enum E \x7b A = [\"x\"][\"²\"], B = 1 \x7d" =
      .tree .program none [superscriptEnum] ∧
    (∃ ms, HasMembers (siteOf superscriptEnum) ms ∧ ms.map (·.name) = ["A", "B"]) ∧
    ∀ result, bareProject.enumMembers (siteOf superscriptEnum) ≠ .ok result :=
  ⟨by decide +kernel, exists_hasMembers (.cons ⟨_, rfl, rfl⟩ (.cons ⟨_, rfl, rfl⟩ .nil)), nofun⟩

end SettingsHarvest
