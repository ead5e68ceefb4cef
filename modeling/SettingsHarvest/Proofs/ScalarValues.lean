import SettingsHarvest.Configuration
import SettingsHarvest.Evaluation
import SettingsHarvest.Proofs.Assignment
import SettingsHarvest.Proofs.Attempt
import SettingsHarvest.Proofs.Checks

/-! What constant expressions can be.

Lists and objects are never the value of an expression: they can be read from, but not be the answer.
So every value that evaluation comes to is scalar, as long as the members of enumerations outside the
files are; and those of a configured project are. -/
namespace SettingsHarvest
open Syntax

/-- Neither a list nor a record. -/
def Value.isScalar : Value → Bool
  | .list _ | .record _ => false
  | _ => true

/-! ### Numbers -/

namespace Value

theorem isScalar_of_isNumber {v : Value} (h : v.isNumber = true) : v.isScalar = true := by
  cases v <;> first | rfl | cases h

theorem isScalar_normalize_decimal (x : Binary64) : (decimal x).normalize.isScalar = true := by
  simp only [normalize]
  split
  · split <;> rfl
  · rfl

theorem isScalar_combine {exact : Int → Int → Int} {rounded : Binary64 → Binary64 → Binary64}
    {a b v : Value} (h : combine exact rounded a b = some v) : v.isScalar = true := by
  simp only [combine] at h
  split at h
  · cases h
    rfl
  · split at h
    · cases h
      rfl
    · cases h

theorem isScalar_quotient {a b v : Value} (h : quotient a b = some v) : v.isScalar = true := by
  simp only [quotient] at h
  split at h
  · split at h
    · cases h
      rfl
    · cases h
  · split at h
    · cases h
      rfl
    · cases h

theorem isScalar_remainder {a b v : Value} (h : remainder a b = .ok (some v)) : v.isScalar = true := by
  simp only [remainder] at h
  split at h
  · cases h
  · cases h
  · cases h
    rfl
  · cases h

theorem isScalar_onWords {f : Int → Int → Int} {a b v : Value} (h : onWords f a b = .ok (some v)) :
    v.isScalar = true := by
  obtain ⟨m, -, h⟩ := bind_eq_ok.1 h
  cases m with
  | none => cases pure_eq_ok.1 h
  | some m =>
    obtain ⟨n, -, h⟩ := bind_eq_ok.1 h
    cases n with
    | none => cases pure_eq_ok.1 h
    | some n =>
      cases pure_eq_ok.1 h
      rfl

end Value

theorem Numeral.isScalar_parse {text : String} {v : Value} (h : parse text = .ok v) :
    v.isScalar = true := by
  have hmap {x : Except Fault Int} (hx : x.map Value.integer = .ok v) : v.isScalar = true := by
    cases x with
    | error f => cases hx
    | ok n =>
      cases hx
      rfl
  simp only [parse] at h
  split at h
  · exact hmap h
  · split at h
    · exact hmap h
    · split at h
      · exact hmap h
      · split at h
        · exact hmap h
        · split at h
          · cases h
            exact Value.isScalar_normalize_decimal _
          · cases h

theorem BinaryOperator.isScalar_apply {o : BinaryOperator} {a b v : Value}
    (h : o.apply a b = .ok (some v)) : v.isScalar = true := by
  cases o with
  | plus | minus | times => exact Value.isScalar_combine (Except.ok.inj h)
  | dividedBy => exact Value.isScalar_quotient (Except.ok.inj h)
  | remainder => exact Value.isScalar_remainder h
  | or | and | xor | shiftLeft | shiftRight | shiftRightUnsigned => exact Value.isScalar_onWords h

theorem UnaryOperator.isScalar_apply {o : UnaryOperator} {a v : Value} (h : o.apply a = .ok v)
    (ha : a.isScalar = true) : v.isScalar = true := by
  unfold UnaryOperator.apply at h
  split at h
  · cases h
    rfl
  · cases h
    rfl
  · obtain ⟨n, -, h⟩ := bind_eq_ok.1 h
    cases n with
    | none => cases h
    | some n =>
      cases pure_eq_ok.1 h
      rfl
  · cases h
    exact ha

/-! ### Steps of evaluation -/

/-- Bindings of scalar values, and of any expressions. -/
def ScalarBindings (b : Bindings) : Prop := ∀ name v, (name, .value v) ∈ b → v.isScalar = true

/-- An evaluator that answers nothing but scalar values. -/
def AnswersScalars (e : Evaluator) : Prop :=
  ∀ s b v, ScalarBindings b → e s b = .ok (.ok v) → v.isScalar = true

/-- All members of all enumerations have a property. -/
def EnumTable.All (P : Value → Prop) (t : EnumTable) : Prop := ∀ e ∈ t, ∀ m ∈ e.2, P m.2

theorem EnumTable.All.enumMember {P : Value → Prop} {p : Project} (h : p.enums.All P)
    {enumeration member : String} {v : Value} (hv : p.enumMember? enumeration member = some v) : P v := by
  obtain ⟨members, hmembers, hmember⟩ := Option.bind_eq_some_iff.1 hv
  exact h _ (mem_of_lookup hmembers) _ (mem_of_lookup hmember)

/-- Enumerations all of whose members are scalar. -/
def ScalarTable (t : EnumTable) : Prop := ∀ e ∈ t, ∀ m ∈ e.2, m.2.isScalar = true

theorem scalarBindings_nil : ScalarBindings [] := nofun

section Steps

variable {recur : Evaluator} {b : Bindings} {s : Site} {v : Value}

theorem value_eq_ok {w : Value} : Evaluation.value w = .ok (.ok v) ↔ w = v := by
  rw [Evaluation.value, Except.ok.injEq, Except.ok.injEq]

theorem fail_ne_ok {f : Failure} : Evaluation.fail f ≠ .ok (.ok v) := nofun

theorem isScalar_finiteResult {text : String} {w : Value} (h : finiteResult text w = .ok (.ok v))
    (hw : w.isScalar = true) : v.isScalar = true := by
  unfold finiteResult at h
  split at h
  · split at h
    · rw [← value_eq_ok.1 h]
      exact Value.isScalar_normalize_decimal _
    · exact absurd h fail_ne_ok
  · rw [← value_eq_ok.1 h]
    exact hw

theorem isScalar_numeralValue (h : numeralValue s = .ok (.ok v)) : v.isScalar = true := by
  unfold numeralValue at h
  split at h
  · next hparse => exact isScalar_finiteResult h (Numeral.isScalar_parse hparse)
  · exact absurd h fail_ne_ok

theorem isScalar_numberOf {o : Outcome Value} (h : numberOf? o = some v) : v.isScalar = true := by
  unfold numberOf? at h
  split at h
  · split at h
    · next hnumber =>
      cases h
      exact Value.isScalar_of_isNumber hnumber
    · cases h
  · cases h

theorem isScalar_binaryValue (h : binaryValue recur b s = .ok (.ok v)) : v.isScalar = true := by
  unfold binaryValue at h
  split at h
  · exact absurd h fail_ne_ok
  · obtain ⟨left, -, h⟩ := bind_eq_ok.1 h
    obtain ⟨right, -, h⟩ := bind_eq_ok.1 h
    split at h
    · split at h
      · exact absurd h fail_ne_ok
      · obtain ⟨result, hresult, h⟩ := bind_eq_ok.1 h
        cases result with
        | none => exact absurd h fail_ne_ok
        | some w => exact isScalar_finiteResult h (BinaryOperator.isScalar_apply hresult)
    · exact absurd h fail_ne_ok

theorem isScalar_unaryValue (h : unaryValue recur b s = .ok (.ok v)) : v.isScalar = true := by
  unfold unaryValue at h
  split at h
  · exact absurd h fail_ne_ok
  · obtain ⟨argument, -, h⟩ := bind_eq_ok.1 h
    split at h
    · next hnumber =>
      obtain ⟨w, hw, h⟩ := bind_eq_ok.1 h
      exact isScalar_finiteResult h (UnaryOperator.isScalar_apply hw (isScalar_numberOf hnumber))
    · exact absurd h fail_ne_ok

/-! ### Enumerations -/

/-- What a reading of an enumeration keeps: its members are scalar, and so is the next one. -/
structure EnumReading.Scalar (r : EnumReading) : Prop where
  members : ∀ m ∈ r.members, m.2.isScalar = true
  next : ∀ v, r.next = some v → v.isScalar = true

theorem isScalar_successor {w : Value} (h : w.successor = some v) : v.isScalar = true := by
  cases w <;> cases h <;> rfl

theorem EnumReading.Scalar.assign {r : EnumReading} (hr : r.Scalar) (name : String) {w : Value}
    (hw : w.isScalar = true) : Scalar ⟨SettingsHarvest.assign name w r.members, w.successor⟩ :=
  ⟨forall_mem_assign hw hr.members, fun _ hv => isScalar_successor hv⟩

theorem EnumReading.Scalar.bindings {r : EnumReading} (hr : r.Scalar) :
    ScalarBindings (r.members.map fun (m, v) => (m, .value v)) := by
  intro name v hmem
  obtain ⟨m, hm, heq⟩ := List.mem_map.1 hmem
  cases heq
  exact hr.members m hm

theorem EnumReading.scalar_add (hrecur : AnswersScalars recur) {r r' : EnumReading} {member : Site}
    (h : r.add recur member = .ok r') (hr : r.Scalar) : r'.Scalar := by
  unfold EnumReading.add at h
  generalize (if member.hasKind .enumAssignment then (member.part? .name, member.part? .value)
    else (some member, none)) = parts at h
  obtain ⟨name?, value?⟩ := parts
  cases name? with
  | none =>
    cases h
    exact hr
  | some nameSite =>
    obtain ⟨name, -, h⟩ := bind_eq_ok.1 h
    cases value? with
    | none =>
      cases hnext : r.next with
      | none =>
        rw [hnext] at h
        cases pure_eq_ok.1 h
        exact hr
      | some w =>
        rw [hnext] at h
        cases pure_eq_ok.1 h
        exact hr.assign name (hr.next w hnext)
    | some initializer =>
      obtain ⟨outcome, houtcome, h⟩ := bind_eq_ok.1 h
      cases outcome with
      | ok w =>
        cases pure_eq_ok.1 h
        exact hr.assign name (hrecur _ _ w hr.bindings houtcome)
      | error f =>
        cases pure_eq_ok.1 h
        exact ⟨hr.members, nofun⟩

theorem isScalar_enumMembersBy (hrecur : AnswersScalars recur) {enumeration : Site}
    {members : List (String × Value)} (h : enumMembersBy recur enumeration = .ok members) :
    ∀ m ∈ members, m.2.isScalar = true := by
  unfold enumMembersBy at h
  split at h
  · cases h
    nofun
  · obtain ⟨r, hr, h⟩ := bind_eq_ok.1 h
    cases pure_eq_ok.1 h
    have hstart : EnumReading.Scalar ⟨[], some (.integer 0)⟩ :=
      ⟨nofun, fun v hv => by cases hv; rfl⟩
    exact (foldlM_preserves hr hstart fun _ _ _ _ => EnumReading.scalar_add hrecur).members

/-! ### Names and members -/

variable {p : Project}

theorem isScalar_enumMember (hp : ScalarTable p.enums) {enumeration member : String}
    (h : p.enumMember? enumeration member = some v) : v.isScalar = true :=
  EnumTable.All.enumMember (P := fun v => v.isScalar = true) hp h

theorem isScalar_declaredEnumMember (hrecur : AnswersScalars recur) {base : Site} {key : String}
    (h : p.declaredEnumMember? recur b base key = .ok (some v)) : v.isScalar = true := by
  unfold Project.declaredEnumMember? at h
  split at h
  · obtain ⟨declaration, -, h⟩ := bind_eq_ok.1 h
    split at h
    · obtain ⟨members, hmembers, h⟩ := bind_eq_ok.1 h
      exact isScalar_enumMembersBy hrecur hmembers _ (mem_of_lookup (pure_eq_ok.1 h))
    · cases pure_eq_ok.1 h
  · cases h

/-- What a key of something gives: its entry there, or a member of an enumeration outside the files. -/
def entryValue (p : Project) (recur : Evaluator) (base : Site) (key : String) :
    Option Site → Evaluation
  | some e => recur e []
  | none => match p.enumMember? base.unwrap.text key with
    | some w => Evaluation.value w
    | none => Evaluation.fail (.unresolvedMember base.unwrap.text key)

theorem isScalar_entryValue (hp : ScalarTable p.enums) (hrecur : AnswersScalars recur) {base : Site}
    {key : String} {entry : Option Site} (h : entryValue p recur base key entry = .ok (.ok v)) :
    v.isScalar = true := by
  cases entry with
  | some e => exact hrecur e [] v scalarBindings_nil h
  | none =>
    rw [entryValue] at h
    split at h
    · next hmember =>
      rw [← value_eq_ok.1 h]
      exact isScalar_enumMember hp hmember
    · exact absurd h fail_ne_ok

theorem isScalar_accessValue (hp : ScalarTable p.enums) (hrecur : AnswersScalars recur) {base : Site}
    {key : String} (h : p.accessValue recur b base key = .ok (.ok v)) : v.isScalar = true := by
  obtain ⟨declared, hdeclared, h⟩ := bind_eq_ok.1 h
  cases declared with
  | some w =>
    rw [← value_eq_ok.1 h]
    exact isScalar_declaredEnumMember hrecur hdeclared
  | none =>
    obtain ⟨container, -, h⟩ := bind_eq_ok.1 h
    cases container with
    | none =>
      have hentry : entryValue p recur base key none = .ok (.ok v) := h
      exact isScalar_entryValue hp hrecur hentry
    | some c =>
      obtain ⟨entry, -, h⟩ := bind_eq_ok.1 h
      have hentry : entryValue p recur base key entry = .ok (.ok v) := h
      exact isScalar_entryValue hp hrecur hentry

theorem isScalar_memberValue (hp : ScalarTable p.enums) (hrecur : AnswersScalars recur)
    (h : p.memberValue recur b s = .ok (.ok v)) : v.isScalar = true := by
  unfold Project.memberValue at h
  split at h
  · exact isScalar_accessValue hp hrecur h
  · exact absurd h fail_ne_ok

theorem isScalar_elementValue (hp : ScalarTable p.enums) (hrecur : AnswersScalars recur)
    (h : p.elementValue recur b s = .ok (.ok v)) : v.isScalar = true := by
  obtain ⟨index, -, h⟩ := bind_eq_ok.1 h
  split at h
  · exact isScalar_accessValue hp hrecur h
  · split at h
    · obtain ⟨key, -, h⟩ := bind_eq_ok.1 h
      exact isScalar_accessValue hp hrecur h
    · exact absurd h fail_ne_ok
  · exact absurd h fail_ne_ok

theorem isScalar_nameValue (hrecur : AnswersScalars recur) (hb : ScalarBindings b)
    (h : p.nameValue recur b s = .ok (.ok v)) : v.isScalar = true := by
  unfold Project.nameValue at h
  split at h
  · next hlookup =>
    rw [← value_eq_ok.1 h]
    exact hb _ _ (mem_of_lookup hlookup)
  · exact hrecur _ [] v scalarBindings_nil h
  · obtain ⟨initializer, -, h⟩ := bind_eq_ok.1 h
    cases initializer with
    | none => exact absurd h fail_ne_ok
    | some e =>
      obtain ⟨outcome, houtcome, h⟩ := bind_eq_ok.1 h
      cases outcome with
      | ok w =>
        rw [← value_eq_ok.1 h]
        exact hrecur e [] w scalarBindings_nil houtcome
      | error f => exact absurd h fail_ne_ok

/-! ### Evaluation -/

/-- One step answers scalar values if the steps it asks for do. -/
theorem isScalar_valueOf (hp : ScalarTable p.enums) (hrecur : AnswersScalars recur)
    (hb : ScalarBindings b) (h : p.valueOf recur b s = .ok (.ok v)) : v.isScalar = true := by
  unfold Project.valueOf at h
  split at h
  · obtain ⟨text, -, h⟩ := bind_eq_ok.1 h
    rw [← value_eq_ok.1 h]
    rfl
  · split at h
    · exact absurd h fail_ne_ok
    · obtain ⟨text, -, h⟩ := bind_eq_ok.1 h
      rw [← value_eq_ok.1 h]
      rfl
  · exact isScalar_numeralValue h
  · rw [← value_eq_ok.1 h]
    rfl
  · rw [← value_eq_ok.1 h]
    rfl
  · exact isScalar_nameValue hrecur hb h
  · exact isScalar_nameValue hrecur hb h
  · exact isScalar_memberValue hp hrecur h
  · exact isScalar_elementValue hp hrecur h
  · exact isScalar_binaryValue h
  · exact isScalar_unaryValue h
  · exact absurd h fail_ne_ok

end Steps

theorem answersScalars_evaluateWithin {p : Project} (hp : ScalarTable p.enums) (depth : Nat) :
    AnswersScalars (p.evaluateWithin depth) := by
  induction depth with
  | zero => exact fun s b v _ h => absurd h fail_ne_ok
  | succ depth ih => exact fun s b v hb h => isScalar_valueOf hp ih hb h

/-- **Constants are scalar.** No expression has a list or a record as its value. -/
theorem isScalar_evaluate {p : Project} (hp : ScalarTable p.enums) {s : Site} {b : Bindings}
    (hb : ScalarBindings b) {v : Value} (h : p.evaluate s b = .ok (.ok v)) : v.isScalar = true :=
  answersScalars_evaluateWithin hp Project.evaluationDepth s b v hb h

/-! ### Configured projects -/

theorem isScalar_scalar {d : Datum} {v : Value} (h : d.scalar? = some v) : v.isScalar = true := by
  cases d <;> cases h <;> rfl

theorem scalarTable_asEnums (entries : Preferences) : ScalarTable (Configuration.asEnums entries) := by
  intro e he m hm
  obtain ⟨⟨name, members⟩, -, he⟩ := List.mem_filterMap.1 he
  obtain ⟨name, -, rfl⟩ := Option.map_eq_some_iff.1 he
  obtain ⟨⟨key, d⟩, -, hm⟩ := List.mem_filterMap.1 hm
  dsimp only at hm
  split at hm
  · next hscalar =>
    cases hm
    exact isScalar_scalar hscalar
  · cases hm

theorem scalarTable_platformEnums : ScalarTable Project.platformEnums := by
  unfold ScalarTable
  decide

theorem EnumTable.All.extendEnums {P : Value → Prop} {base more : EnumTable} (hbase : base.All P)
    (hmore : more.All P) : (Project.extendEnums base more).All P := by
  induction more generalizing base with
  | nil => exact hbase
  | cons first more ih =>
    have hmembers : ∀ m ∈ (base.lookup first.1).getD [], P m.2 := by
      cases hlookup : base.lookup first.1 with
      | none => nofun
      | some members => exact hbase _ (mem_of_lookup hlookup)
    have hfirst : ∀ m ∈ assignAll ((base.lookup first.1).getD []) first.2, P m.2 :=
      forall_mem_assignAll hmembers (hmore first List.mem_cons_self)
    exact ih (forall_mem_assign hfirst hbase) fun e he => hmore e (List.mem_cons_of_mem _ he)

/-- What a project is configured with keeps its constants scalar. -/
theorem scalarTable_project (s : Preferences) (workingDirectory root : String)
    (readable : List SourceFile) :
    ScalarTable ((Configuration.ofPreferences s).project workingDirectory root readable).enums :=
  EnumTable.All.extendEnums (P := fun v => v.isScalar = true) scalarTable_platformEnums
    (scalarTable_asEnums _)

theorem EnumTable.All.mono {P Q : Value → Prop} {t : EnumTable} (h : t.All P) (hPQ : ∀ v, P v → Q v) :
    t.All Q :=
  fun e he m hm => hPQ _ (h e he m hm)

/-- What a member of an enumeration outside the files can be. -/
def Value.IsMember (v : Value) : Prop := (∃ n, v = .integer n) ∨ ∃ t, v = .text t

theorem members_platformEnums : EnumTable.All Value.IsMember Project.platformEnums := by
  simp [EnumTable.All, Project.platformEnums, Value.IsMember, or_imp, forall_and]

/-- The enumerations of preferences that are let pass have integers and texts for members. -/
theorem Preferences.Checked.enumMembers {s : Preferences} (h : s.Checked) :
    (Project.extendEnums Project.platformEnums (Configuration.ofPreferences s).enums).All
      Value.IsMember := by
  refine members_platformEnums.extendEnums fun e he m hm => ?_
  obtain ⟨⟨name, members⟩, hentry, he⟩ := List.mem_filterMap.1 he
  obtain ⟨name, -, rfl⟩ := Option.map_eq_some_iff.1 he
  obtain ⟨⟨key, d⟩, hmember, hd⟩ := List.mem_filterMap.1 hm
  obtain ⟨all, rfl, hvalues⟩ := h.members _ hentry
  dsimp only at hd
  split at hd
  · next hscalar =>
    cases hd
    obtain ⟨-, ⟨n, rfl⟩ | ⟨t, rfl⟩⟩ := hvalues _ hmember
    · exact .inl ⟨n, (Option.some.inj hscalar).symm⟩
    · exact .inr ⟨t, (Option.some.inj hscalar).symm⟩
  · cases hd

end SettingsHarvest
