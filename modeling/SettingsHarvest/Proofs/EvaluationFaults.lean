import SettingsHarvest.Proofs.Checks
import SettingsHarvest.Proofs.CountingKeys
import SettingsHarvest.Proofs.FiniteNumbers
import SettingsHarvest.Proofs.Legibility
import SettingsHarvest.Proofs.ScalarValues

/-! What keeps an evaluation from an answer.

An expression that has no value fails, and a failure is an answer. There are few things that evaluation
has no answer for, and `Project.Stuck` names them all: references in a circle, escapes that name no code
point, aliases that are no texts, and keys that no element can be counted by. `ends_evaluate` goes
through every form of expression and meets no other fault; what operators are given is always a finite
number, in a project whose preferences were checked. -/
namespace SettingsHarvest
open Syntax Project

/-- Elements that cannot be counted to, in sources of the nodes `U`. -/
inductive Project.Uncounted (p : Project) (U : Node → Prop) : Fault → Prop where
  /-- The digits of a key are no numeral. -/
  | index {list : Site} {key : String} {f : Fault} : list.Throughout U →
    list.hasKind .array = true → Numeral.Unreadable key → Numeral.readInteger 10 key = .error f →
    Uncounted p U f
  /-- A key is an integer that is too long to be written out. -/
  | overlong {s index : Site} {b : Bindings} {depth : Nat} {n : Int} : s.Throughout U →
    s.hasKind .subscriptExpression = true → s.part? .index = some index →
    p.evaluateWithin depth index b = .ok (.ok (.integer n)) →
    longestNumeral < (Nat.toDigits 10 n.natAbs).length → Uncounted p U (.overlongNumeral none)

/-- Why an evaluation has no answer, in a project of preferences with sources of the nodes `U`. -/
inductive Project.Stuck (p : Project) (preferences : Preferences) (U : Node → Prop) : Fault → Prop where
  /-- References lead on without end. -/
  | circle {s : Site} : s.Throughout U → p.denoted? s = .error .endlessReference →
    Stuck p preferences U .endlessReference
  /-- A quoted text names what is no code point. -/
  | escape {n : Node} {f : Fault} : U n → n.isQuoted = true → Text.decode n.quotedBody = .error f →
    Stuck p preferences U f
  /-- An alias is no text, or what it stands for is none. -/
  | aliasKey {e : Datum × Datum} : e ∈ aliasEntries preferences → e.1.text? = none →
    Stuck p preferences U (.noLength e.1.kind)
  | aliasPath {e : Datum × Datum} : e ∈ aliasEntries preferences → e.2.text? = none →
    Stuck p preferences U (.pathNotText e.2.kind)
  | element {f : Fault} : p.Uncounted U f → Stuck p preferences U f

variable {p : Project} {preferences : Preferences} {U : Node → Prop}

/-! ### Sources -/

/-- Sources can be read up to what keeps evaluations from an answer. -/
theorem legible_of_throughout {s : Site} (h : s.Throughout U) :
    s.Legible U (p.Stuck preferences U) :=
  h.mono fun _ hn => ⟨hn, fun hquoted => ⟨fun _ => trivial, fun hf => .escape hn hquoted hf⟩⟩

theorem throughout_of_legible {F : Fault → Prop} {s : Site} (h : s.Legible U F) : s.Throughout U :=
  h.mono fun _ hn => hn.known

theorem Project.ConfiguredBy.legible (h : p.ConfiguredBy preferences)
    (hfiles : ∀ f ∈ p.known ++ p.readable, f.top.Throughout U) :
    p.Legible U (p.Stuck preferences U) where
  aliases := h.ends_aliases (fun _ => .aliasKey) (fun _ => .aliasPath)
  closed := by simp [h.closed]
  files := fun f hf => (legible_of_throughout (hfiles f hf)).here

/-! ### Enumerations outside the files -/

theorem Value.IsMember.finite {v : Value} (h : v.IsMember) : v.Finite := by
  obtain ⟨n, rfl⟩ | ⟨t, rfl⟩ := h
  · trivial
  · trivial

/-- The enumerations of checked preferences have finite members. -/
theorem Project.ConfiguredBy.finite_enums (h : p.ConfiguredBy preferences)
    (hcheck : preferences.check = .ok ()) : p.enums.All Value.Finite := by
  rw [h.enums]
  exact (Preferences.check_eq_ok_iff.1 hcheck).enumMembers.mono fun _ => Value.IsMember.finite

/-! ### Steps of evaluation -/

/-- Bindings of finite values, and of expressions among the nodes `U`. -/
structure Bindings.Within (U : Node → Prop) (b : Bindings) : Prop where
  value : ∀ {name v}, b.lookup name = some (.value v) → v.Finite
  expression : ∀ {name s}, b.lookup name = some (.expression s) → s.Throughout U

theorem Bindings.Within.nil : Bindings.Within U [] where
  value := nofun
  expression := nofun

/-- A project with checked preferences, all of whose files are of the nodes `U`. -/
structure Project.Checked (p : Project) (preferences : Preferences) (U : Node → Prop) : Prop where
  configured : p.ConfiguredBy preferences
  checked : preferences.check = .ok ()
  files : ∀ f ∈ p.known ++ p.readable, f.top.Throughout U

/-- An evaluator that answers finite values or failures, if nothing keeps it from an answer. -/
def Answers (p : Project) (preferences : Preferences) (U : Node → Prop) (recur : Evaluator) : Prop :=
  ∀ s b, s.Throughout U → b.Within U → Ends (p.Stuck preferences U) FiniteOutcome (recur s b)

section Steps

variable {recur : Evaluator} {b : Bindings} {s base : Site} {key : String}

theorem ends_partValue (hrecur : Answers p preferences U recur) (hs : s.Throughout U)
    (hb : b.Within U) (r : Role) :
    Ends (p.Stuck preferences U) FiniteOutcome (partValue recur b s r) := by
  unfold partValue
  split
  · next hpart => exact hrecur _ _ (hs.part? hpart) hb
  · exact ends_fail

theorem ends_binaryValue (hrecur : Answers p preferences U recur) (hs : s.Throughout U)
    (hb : b.Within U) : Ends (p.Stuck preferences U) FiniteOutcome (binaryValue recur b s) := by
  unfold binaryValue
  split
  · exact ends_fail
  · next o _ =>
    refine (ends_partValue hrecur hs hb .left).bind fun left hleft => ?_
    refine (ends_partValue hrecur hs hb .right).bind fun right hright => ?_
    split
    · next hm hn =>
      obtain ⟨hm, hmnumber⟩ := hleft.numberOf hm
      obtain ⟨hn, hnnumber⟩ := hright.numberOf hn
      split
      · exact ends_fail
      · refine (o.ends_apply hm hn hmnumber hnnumber).bind fun found hfound => ?_
        cases found with
        | none => exact ends_fail
        | some v => exact ends_finiteResult (hfound v rfl)
    · exact ends_fail

theorem ends_unaryValue (hrecur : Answers p preferences U recur) (hs : s.Throughout U)
    (hb : b.Within U) : Ends (p.Stuck preferences U) FiniteOutcome (unaryValue recur b s) := by
  unfold unaryValue
  split
  · exact ends_fail
  · next o _ =>
    refine (ends_partValue hrecur hs hb .argument).bind fun argument hargument => ?_
    split
    · next hn =>
      obtain ⟨hn, hnumber⟩ := hargument.numberOf hn
      exact (o.ends_apply hn hnumber).bind fun v hv => ends_finiteResult hv
    · exact ends_fail

/-! ### Enumerations -/

/-- Finite members, and a finite next one. -/
structure EnumReading.Finite (r : EnumReading) : Prop where
  members : ∀ m ∈ r.members, m.2.Finite
  next : ∀ v ∈ r.next, v.Finite

theorem EnumReading.Finite.assign {r : EnumReading} (hr : r.Finite) (name : String) {v : Value}
    (hv : v.Finite) : Finite ⟨SettingsHarvest.assign name v r.members, v.successor⟩ :=
  ⟨forall_mem_assign hv hr.members, fun _ hnext => hv.successor hnext⟩

theorem EnumReading.Finite.bindings {r : EnumReading} (hr : r.Finite) :
    Bindings.Within U (r.members.map fun (m, v) => (m, .value v)) where
  value h := by
    obtain ⟨m, hm, heq⟩ := List.mem_map.1 (mem_of_lookup h)
    cases heq
    exact hr.members m hm
  expression h := by
    obtain ⟨m, -, heq⟩ := List.mem_map.1 (mem_of_lookup h)
    cases heq

theorem ends_memberName (hs : s.Throughout U) :
    Ends (p.Stuck preferences U) (fun _ => True) (memberName s) := by
  unfold memberName
  split
  · next hstring =>
    exact (legible_of_throughout hs).stringValue (Site.isQuoted_of_hasKind_string hstring)
  · exact .ok trivial

theorem EnumReading.ends_add (hrecur : Answers p preferences U recur) {r : EnumReading}
    {member : Site} (hmember : member.Throughout U) (hr : r.Finite) :
    Ends (p.Stuck preferences U) EnumReading.Finite (r.add recur member) := by
  have hparts : ∀ name? value?, (if member.hasKind .enumAssignment then
      (member.part? .name, member.part? .value) else (some member, none)) = (name?, value?) →
      (∀ t ∈ name?, t.Throughout U) ∧ ∀ t ∈ value?, t.Throughout U := by
    intro name? value? heq
    split at heq
    · cases heq
      exact ⟨fun t ht => hmember.part? ht, fun t ht => hmember.part? ht⟩
    · cases heq
      exact ⟨fun t ht => by cases ht; exact hmember, nofun⟩
  unfold EnumReading.add
  generalize hpair : (if member.hasKind .enumAssignment then
    (member.part? .name, member.part? .value) else (some member, none)) = parts
  obtain ⟨name?, value?⟩ := parts
  obtain ⟨hname, hvalue⟩ := hparts name? value? hpair
  cases name? with
  | none => exact .ok hr
  | some nameSite =>
    refine (ends_memberName (hname nameSite rfl)).bind fun name _ => ?_
    cases value? with
    | none =>
      cases hnext : r.next with
      | none => exact .ok hr
      | some v => exact .ok (hr.assign name (hr.next v hnext))
    | some initializer =>
      refine (hrecur _ _ (hvalue initializer rfl) hr.bindings).bind fun outcome houtcome => ?_
      cases outcome with
      | ok v => exact .ok (hr.assign name (houtcome v rfl))
      | error f => exact .ok ⟨hr.members, nofun⟩

theorem ends_enumMembersBy (hrecur : Answers p preferences U recur) (hs : s.Throughout U) :
    Ends (p.Stuck preferences U) (fun members => ∀ m ∈ members, m.2.Finite)
      (enumMembersBy recur s) := by
  unfold enumMembersBy
  split
  · exact .ok nofun
  · next hbody =>
    have hstart : EnumReading.Finite ⟨[], some (.integer 0)⟩ :=
      ⟨nofun, fun v hv => by cases hv; trivial⟩
    have hread := Ends.foldlM hstart fun member hmember _ hr =>
      EnumReading.ends_add hrecur ((hs.part? hbody).named hmember) hr
    exact hread.bind fun r hr => .ok hr.members

/-! ### Members -/

/-- Finite values only. -/
def FoundFinite (found : Option Value) : Prop := ∀ v ∈ found, v.Finite

theorem ends_declaredEnumMember (hp : p.Checked preferences U) (hrecur : Answers p preferences U recur)
    (hbase : base.Throughout U) :
    Ends (p.Stuck preferences U) FoundFinite (p.declaredEnumMember? recur b base key) := by
  unfold Project.declaredEnumMember?
  split
  · have hlegible := hp.configured.legible hp.files
    refine (hlegible.declaration? (legible_of_throughout hbase)).bind fun found hfound => ?_
    split
    · have hsite := throughout_of_legible (hfound _ rfl).site
      refine (ends_enumMembersBy hrecur hsite).bind fun members hmembers => .ok ?_
      exact fun v hv => hmembers _ (mem_of_lookup hv)
    · exact .ok nofun
  · exact .ok nofun

theorem ends_denoted (hp : p.Checked preferences U) (hs : s.Throughout U) :
    Ends (p.Stuck preferences U) (Site.LegibleFound U (p.Stuck preferences U)) (p.denoted? s) := by
  have hlegible := hp.configured.legible hp.files
  have hends := hlegible.denotedWithin deepestChain (legible_of_throughout hs)
  refine ⟨hends.result, fun {f} hf => ?_⟩
  rcases hends.fault hf with hstuck | rfl
  · exact hstuck
  · exact .circle hs hf

/-- Literals that entries are read from. -/
def IsContainer (U : Node → Prop) (c : Site) : Prop :=
  c.Throughout U ∧ (c.hasKind .object = true ∨ c.hasKind .array = true)

theorem ends_container (hp : p.Checked preferences U) (hb : b.Within U) (hbase : base.Throughout U) :
    Ends (p.Stuck preferences U) (fun found => ∀ c ∈ found, IsContainer U c)
      (p.container? b base) := by
  have hfollow (start : Site) (hstart : start.Throughout U) : Ends (p.Stuck preferences U)
      (fun found => ∀ c ∈ found, IsContainer U c)
      ((p.denoted? start).map (·.filter fun s => s.hasKind .object || s.hasKind .array)) := by
    refine (ends_denoted hp hstart).map fun found hfound c hc => ?_
    obtain ⟨hfilter, hkind⟩ := Option.filter_eq_some_iff.1 hc
    exact ⟨throughout_of_legible (hfound c hfilter), Bool.or_eq_true_iff.1 hkind⟩
  unfold Project.container?
  split
  · dsimp only
    cases hbound : b.lookup base.text with
    | none => exact hfollow base hbase
    | some bound =>
      cases bound with
      | value v => exact .ok nofun
      | expression t => exact hfollow t (hb.expression hbound)
  · exact hfollow base hbase

theorem ends_entry (hbase : IsContainer U base) : Ends (p.Stuck preferences U)
    (fun found => ∀ t ∈ found, t.Throughout U) (entryAt? base key) := by
  obtain ⟨hbase, hkind⟩ := hbase
  unfold entryAt?
  split
  · refine ((legible_of_throughout hbase).memberValue? key).mono fun found hfound t ht => ?_
    exact throughout_of_legible (hfound t ht)
  · next hobject =>
    have harray := hkind.resolve_left hobject
    unfold elementAt?
    split
    · next hindex =>
      cases hread : Numeral.readInteger 10 key with
      | error f =>
        have hkey := (Numeral.readInteger_error_iff hindex).1 ⟨f, hread⟩
        exact .error (.element (.index hbase harray hkey hread))
      | ok n => exact .ok fun t ht => hbase.named (List.mem_of_getElem? ht)
    · exact .ok nofun

theorem ends_accessValue (hp : p.Checked preferences U) (hrecur : Answers p preferences U recur)
    (hb : b.Within U) (hbase : base.Throughout U) :
    Ends (p.Stuck preferences U) FiniteOutcome (p.accessValue recur b base key) := by
  refine (ends_declaredEnumMember hp hrecur hbase.unwrap).bind fun declared hdeclared => ?_
  cases declared with
  | some v => exact ends_value (hdeclared v rfl)
  | none =>
    refine (ends_container hp hb hbase.unwrap).bind fun container hcontainer => ?_
    have hentry : ∀ entry : Option Site, (∀ t ∈ entry, t.Throughout U) →
        Ends (p.Stuck preferences U) FiniteOutcome (entryValue p recur base key entry) := by
      intro entry hentry
      cases entry with
      | some e => exact hrecur e [] (hentry e rfl) .nil
      | none =>
        rw [entryValue]
        split
        · next hmember =>
          obtain ⟨members, hmembers, hmember⟩ := Option.bind_eq_some_iff.1 hmember
          have henums := hp.configured.finite_enums hp.checked
          exact ends_value (henums _ (mem_of_lookup hmembers) _ (mem_of_lookup hmember))
        · exact ends_fail
    cases container with
    | none => exact hentry none fun t ht => by cases ht
    | some c => exact (ends_entry (hcontainer c rfl)).bind fun entry h => hentry entry h

/-! ### Forms of expression -/

theorem ends_memberValue (hp : p.Checked preferences U) (hrecur : Answers p preferences U recur)
    (hb : b.Within U) (hs : s.Throughout U) :
    Ends (p.Stuck preferences U) FiniteOutcome (p.memberValue recur b s) := by
  unfold Project.memberValue
  split
  · next hparts =>
    have hlegible : s.Legible U (p.Stuck preferences U) := legible_of_throughout hs
    exact ends_accessValue hp hrecur hb (throughout_of_legible (hlegible.accessParts hparts))
  · exact ends_fail

theorem ends_nameValue (hp : p.Checked preferences U) (hrecur : Answers p preferences U recur)
    (hb : b.Within U) (hs : s.Throughout U) :
    Ends (p.Stuck preferences U) FiniteOutcome (p.nameValue recur b s) := by
  unfold Project.nameValue
  split
  · next hbound => exact ends_value (hb.value hbound)
  · next hbound => exact hrecur _ [] (hb.expression hbound) .nil
  · have hlegible := hp.configured.legible hp.files
    refine (hlegible.initializer? (legible_of_throughout hs)).bind fun found hfound => ?_
    cases found with
    | none => exact ends_fail
    | some initializer =>
      have hinitializer := throughout_of_legible (hfound initializer rfl)
      refine (hrecur initializer [] hinitializer .nil).bind fun outcome houtcome => ?_
      cases outcome with
      | ok v => exact ends_value (houtcome v rfl)
      | error f => exact ends_fail

end Steps

/-- Only integers among numbers can be too long for a key. -/
theorem overlong_of_keyText {v : Value} {f : Fault} (hnumber : v.isNumber = true)
    (h : v.keyText = .error f) : ∃ n, v = .integer n ∧ f = .overlongNumeral none ∧
      longestNumeral < (Nat.toDigits 10 n.natAbs).length := by
  obtain ⟨hlong, rfl⟩ := Value.keyText_eq_error.1 h
  cases v with
  | integer n => exact ⟨n, rfl, rfl, Nat.lt_of_not_le (of_decide_eq_false hlong)⟩
  | decimal => cases hlong
  | null | truth | text | list | record => cases hnumber

theorem exists_part_of_partValue {recur : Evaluator} {b : Bindings} {s : Site} {r : Role} {v : Value}
    (h : partValue recur b s r = .ok (.ok v)) :
    ∃ part, s.part? r = some part ∧ recur part b = .ok (.ok v) := by
  unfold partValue at h
  split at h
  · next part hpart => exact ⟨part, hpart, h⟩
  · cases h

/-- The key of an element is a text, or a number that can be written out. -/
theorem ends_elementValue {depth : Nat} {b : Bindings} {s : Site} (hp : p.Checked preferences U)
    (hrecur : Answers p preferences U (p.evaluateWithin depth)) (hb : b.Within U)
    (hs : s.Throughout U) (hkind : s.hasKind .subscriptExpression = true) :
    Ends (p.Stuck preferences U) FiniteOutcome (p.elementValue (p.evaluateWithin depth) b s) := by
  have hkey (base : Site) (hbase : s.part? .object = some base) (key : String) :
      Ends (p.Stuck preferences U) FiniteOutcome
        (p.accessValue (p.evaluateWithin depth) b base key) :=
    ends_accessValue hp hrecur hb (hs.part? hbase)
  unfold Project.elementValue
  cases hindex : partValue (p.evaluateWithin depth) b s .index with
  | error f => exact .error ((ends_partValue hrecur hs hb .index).fault hindex)
  | ok outcome =>
    dsimp only [bind, Except.bind]
    split
    · next hbase => exact hkey _ hbase _
    · next v base _ hbase =>
      split
      · next hnumber =>
        refine Ends.bind (P := fun _ => True) ?_ fun key _ => hkey base hbase key
        refine ⟨fun _ => trivial, fun hf => ?_⟩
        obtain ⟨n, rfl, rfl, hlong⟩ := overlong_of_keyText hnumber hf
        obtain ⟨index, hpart, hindex⟩ := exists_part_of_partValue hindex
        exact .element (.overlong hs hkind hpart hindex hlong)
      · exact ends_fail
    · exact ends_fail

/-- One step answers, or is kept from it, if the steps it asks for are. -/
theorem ends_valueOf {depth : Nat} {b : Bindings} {s : Site} (hp : p.Checked preferences U)
    (hrecur : Answers p preferences U (p.evaluateWithin depth)) (hb : b.Within U)
    (hs : s.Throughout U) :
    Ends (p.Stuck preferences U) FiniteOutcome (p.valueOf (p.evaluateWithin depth) b s) := by
  have htext (hquoted : s.node.isQuoted = true) : Ends (p.Stuck preferences U) FiniteOutcome
      (s.stringValue >>= fun t => Evaluation.value (.text t)) :=
    ((legible_of_throughout hs).stringValue hquoted).bind fun _ _ => ends_value trivial
  unfold Project.valueOf
  split
  · next hkind => exact htext (Site.isQuoted_of_hasKind_string (by simp [Site.hasKind_iff, hkind]))
  · next hkind =>
    split
    · exact ends_fail
    · exact htext (Site.isQuoted_of_hasKind_template (by simp [Site.hasKind_iff, hkind]))
  · exact ends_numeralValue
  · exact ends_value trivial
  · exact ends_value trivial
  · exact ends_nameValue hp hrecur hb hs
  · exact ends_nameValue hp hrecur hb hs
  · exact ends_memberValue hp hrecur hb hs
  · next hkind => exact ends_elementValue hp hrecur hb hs (by simp [Site.hasKind_iff, hkind])
  · exact ends_binaryValue hrecur hs hb
  · exact ends_unaryValue hrecur hs hb
  · exact ends_fail

theorem answers_evaluateWithin (hp : p.Checked preferences U) (depth : Nat) :
    Answers p preferences U (p.evaluateWithin depth) := by
  induction depth with
  | zero => exact fun s b _ _ => ends_fail
  | succ depth ih => exact fun s b hs hb => ends_valueOf hp ih hb hs.unwrap

/-- An evaluation comes to a finite value or a failure, or something keeps it from an answer. -/
theorem ends_evaluate (hp : p.Checked preferences U) {s : Site} {b : Bindings} (hs : s.Throughout U)
    (hb : b.Within U) : Ends (p.Stuck preferences U) FiniteOutcome (p.evaluate s b) :=
  answers_evaluateWithin hp evaluationDepth s b hs hb

end SettingsHarvest
