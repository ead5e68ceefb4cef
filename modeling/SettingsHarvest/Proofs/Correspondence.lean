import SettingsHarvest.Proofs.Depth
import SettingsHarvest.Proofs.Parallel

/-! Places that correspond.

Evaluation looks at a program through few questions: what kind a node is, how a name or a literal is
spelled, what its parts are, and what the scopes around a name declare. A `Correspondence` is a relation
between the sites of two projects for which all of these are answered alike, where a part that is an
expression may be wrapped in one of them and not, or otherwise, in the other. Names and members are then
followed to corresponding sites (`Correspondence.denotedWithin`), and corresponding expressions have the
same value, or failures of one kind (`Correspondence.evaluateWithin`): one lemma for each form, then an
induction on the depth. -/
namespace SettingsHarvest
open Syntax Project

/-- A function, block or program, whose parts are in a scope of their own. -/
def Syntax.Node.isScope (n : Node) : Bool :=
  n.kind?.any fun k => k.isFunction || k == .program || k == .statementBlock

namespace Syntax.Site

/-- Names, numerals and quoted texts: what is read as it is spelled. -/
def isWord (s : Site) : Bool :=
  s.hasKind .identifier || s.hasKind .shorthandPropertyIdentifier || s.hasKind .number
    || s.isStringLiteral

def isScope (s : Site) : Bool := s.node.isScope

theorem isScope_eq_false {s : Site} {k : Kind} (h : s.hasKind k = true)
    (hk : (k.isFunction || k == .program || k == .statementBlock) = false) : s.isScope = false := by
  have hkind : s.node.kind? = some k := hasKind_iff.1 h
  rw [isScope, Node.isScope, hkind]
  exact hk

end Syntax.Site

/-! ### Related data -/

section Related

variable (Same Init : Site → Site → Prop)

/-- Expressions that correspond once wrappers are taken off. -/
def Unwrapped (s s' : Site) : Prop := Same s.unwrap s'.unwrap

/-- What names are bound to in two places. -/
inductive Bound.Alike : Bound → Bound → Prop where
  | value (v : Value) : Bound.Alike (.value v) (.value v)
  | expression {s s' : Site} : Unwrapped Same s s' → Bound.Alike (.expression s) (.expression s')

/-- The same names, bound alike. -/
def Bindings.Alike : Bindings → Bindings → Prop :=
  List.Forall₂ fun e e' => e.1 = e'.1 ∧ Bound.Alike Same e.2 e'.2

/-- Members of two enumerations with the same name, and corresponding initializers if any. -/
structure MemberAlike (member member' : Site) : Prop where
  name : Option.Rel (fun n n' => memberName n = memberName n') (memberParts member).1
    (memberParts member').1
  initializer : Option.Rel (Unwrapped Same) (memberParts member).2 (memberParts member').2

/-- What two declarations bind their names to, initializers of variables to related ones. -/
inductive Binding.Alike : Binding → Binding → Prop where
  | initialized {v v' : Option Site} : Option.Rel Init v v' →
    Binding.Alike (.variable v) (.variable v')
  | same (b : Binding) : (∀ v, b ≠ .variable v) → Binding.Alike b b

/-- Corresponding declarations of one name. -/
structure Declaration.Alike (d d' : Declaration) : Prop where
  name : d.name = d'.name
  site : Same d.site d'.site
  binding : Binding.Alike Init d.binding d'.binding
  members : d.binding = .enumeration →
    List.Forall₂ (MemberAlike Same) (membersOf d.site) (membersOf d'.site)

/-- Evaluators that answer alike on corresponding expressions. -/
def EvaluatesAlike (recur recur' : Evaluator) : Prop :=
  ∀ s s' b b', Unwrapped Same s s' → Bindings.Alike Same b b' →
    Parallel (Outcome.Alike Eq) (recur s b) (recur' s' b')

end Related

/-- A relation between the sites of two projects under which everything that evaluation asks is answered
alike, and one between initializers of variables, which wrappers may be around. Evaluation never goes
into a scope, so the parts of one need not correspond. -/
structure Correspondence (p p' : Project) (Same Init : Site → Site → Prop) : Prop where
  unwrap {s s' : Site} : Same s s' → Same s.unwrap s'.unwrap
  same {s s' : Site} : Same s s' → Init s s'
  initial {s s' : Site} : Init s s' → Unwrapped Same s s'
  kind {s s' : Site} : Same s s' → s.kind? = s'.kind?
  word {s s' : Site} : Same s s' → s.isWord = true → s.text = s'.text
  substitutions {s s' : Site} : Same s s' → s.hasKind .templateString = true →
    s.hasSubstitutions = s'.hasSubstitutions
  operator {s s' : Site} : Same s s' → operatorText s = operatorText s'
  part {s s' : Site} : Same s s' → s.isScope = false → ∀ r,
    Option.Rel (Unwrapped Same) (s.part? r) (s'.part? r)
  property {s s' : Site} : Same s s' → s.hasKind .memberExpression = true →
    (s.part? .property).map Site.text = (s'.part? .property).map Site.text
  pairKey {s s' : Site} : Same s s' → s.hasKind .pair = true → s.memberKey? = s'.memberKey?
  elements {s s' : Site} : Same s s' → s.hasKind .array = true →
    List.Forall₂ (Unwrapped Same) s.named s'.named
  members {s s' : Site} : Same s s' → s.hasKind .object = true → List.Forall₂ Same s.named s'.named
  /-- What the scopes around a name, and imports, declare. -/
  declaration {s s' : Site} : Same s s' → s.isNameUse = true →
    Parallel (Option.Rel (Declaration.Alike Same Init)) (p.declaration? s) (p'.declaration? s')
  spelled {s s' : Site} : Same s s' → s.isNameUse = true →
    Option.Rel Init (initializerBySpelling? s) (initializerBySpelling? s')
  /-- Enumerations outside the files. -/
  outside {s s' : Site} : Same s s' → ∀ key, p.enumMember? s.text key = p'.enumMember? s'.text key

theorem Bindings.Alike.lookup {Same : Site → Site → Prop} {b b' : Bindings}
    (h : Bindings.Alike Same b b') (name : String) :
    Option.Rel (Bound.Alike Same) (b.lookup name) (b'.lookup name) := by
  induction h with
  | nil => exact .none
  | cons he _ ih =>
    rename_i e e' _ _ _
    obtain ⟨k, x⟩ := e
    obtain ⟨k', x'⟩ := e'
    obtain ⟨hk, hx⟩ := he
    obtain rfl : k = k' := hk
    rw [lookup_cons_eq_ite, lookup_cons_eq_ite]
    split
    · exact .some hx
    · exact ih

/-- Tables with the same names for corresponding declarations. -/
def NameTable.Alike (Same Init : Site → Site → Prop) : NameTable → NameTable → Prop :=
  List.Forall₂ fun e e' => e.1 = e'.1 ∧ Declaration.Alike Same Init e.2 e'.2

/-! ### Tables -/

namespace NameTable.Alike

variable {Same Init : Site → Site → Prop} {table table' : NameTable} {d d' : Declaration}

theorem lookup (h : NameTable.Alike Same Init table table') (name : String) :
    Option.Rel (Declaration.Alike Same Init) (table.lookup? name) (table'.lookup? name) :=
  option_rel_map (forall₂_find h fun e e' he => by rw [he.1]) fun _ _ he => he.2

theorem offer (h : NameTable.Alike Same Init table table') (name : String)
    (hd : Declaration.Alike Same Init d d') :
    NameTable.Alike Same Init (table.offer name d) (table'.offer name d') := by
  unfold NameTable.offer
  rcases option_rel_cases (h.lookup name) with ⟨hl, hl'⟩ | ⟨_, _, hl, hl', -⟩
  · rw [hl, hl']
    exact List.rel_append h (.cons ⟨rfl, hd⟩ .nil)
  · rw [hl, hl']
    exact h

theorem offerAll (h : NameTable.Alike Same Init table table') {ds ds' : List Declaration}
    (hds : List.Forall₂ (Declaration.Alike Same Init) ds ds') :
    NameTable.Alike Same Init (table.offerAll ds) (table'.offerAll ds') := by
  unfold NameTable.offerAll
  refine List.rel_foldl (fun t t' ht d d' hd => ?_) h hds
  rw [hd.name]
  exact NameTable.Alike.offer ht d'.name hd

theorem assign (h : NameTable.Alike Same Init table table') (name : String)
    (hd : Declaration.Alike Same Init d d') :
    NameTable.Alike Same Init (assign name d table) (assign name d' table') := by
  induction h with
  | nil => exact .cons ⟨rfl, hd⟩ .nil
  | cons he hrest ih =>
    rename_i e e' rest rest'
    obtain ⟨k, x⟩ := e
    obtain ⟨k', x'⟩ := e'
    obtain ⟨hk, hx⟩ := he
    obtain rfl : k = k' := hk
    unfold SettingsHarvest.assign
    split
    · exact .cons ⟨rfl, hd⟩ hrest
    · exact .cons ⟨rfl, hx⟩ ih

end NameTable.Alike

namespace Correspondence

variable {p p' : Project} {Same Init : Site → Site → Prop} (c : Correspondence p p' Same Init)
  {s s' t t' : Site}

include c

/-! ### Nodes -/

theorem hasKind (h : Same s s') (k : Kind) : s.hasKind k = s'.hasKind k := by
  have hkind : s.node.kind? = s'.node.kind? := c.kind h
  rw [Site.hasKind, Site.hasKind, Node.hasKind, Node.hasKind, hkind]

theorem unwrapped (h : Same s s') : Unwrapped Same s s' := c.unwrap h

theorem stringValue (h : Same s s') (hs : s.isStringLiteral = true) : s.stringValue = s'.stringValue := by
  have htext := c.word h (by rw [Site.isWord, hs, Bool.or_true])
  rw [Site.stringValue, Site.stringValue, Site.literalBody, Site.literalBody, htext]

theorem nameText (h : Same s s') (hs : s.isNameUse = true) : s.text = s'.text := by
  refine c.word h ?_
  rw [Site.isWord, ← Site.isNameUse, hs, Bool.true_or, Bool.true_or]

theorem accessParts (h : Same s s') (hs : s.hasKind .memberExpression = true) :
    Option.Rel (fun a a' => Unwrapped Same a.1 a'.1 ∧ a.2 = a'.2) s.accessParts? s'.accessParts? := by
  unfold Site.accessParts?
  have hproperty := c.property h hs
  rcases option_rel_cases (c.part h (Site.isScope_eq_false hs rfl) .object) with
    ⟨ho, ho'⟩ | ⟨base, base', ho, ho', hbase⟩
  · rw [ho, ho']
    exact .none
  · rw [ho, ho']
    cases hp : s.part? .property <;> cases hp' : s'.part? .property <;> rw [hp, hp'] at hproperty
    · exact .none
    · cases hproperty
    · cases hproperty
    · exact .some ⟨hbase, Option.some.inj hproperty⟩

/-! ### Members of literals -/

theorem pairs (h : Same s s') (hs : s.hasKind .object = true) :
    List.Forall₂ (fun pair pair' => pair.hasKind .pair = true ∧ Same pair pair')
      (s.named.filter (·.hasKind .pair)) (s'.named.filter (·.hasKind .pair)) :=
  (List.forall₂_and_left _ _).2 ⟨fun _ hpair => (List.mem_filter.1 hpair).2,
    forall₂_filter (c.members h hs) fun _ _ hm => c.hasKind hm .pair⟩

theorem propertyValue (h : Same s s') (key : String) :
    Parallel (Option.Rel (Unwrapped Same)) (s.propertyValue? key) (s'.propertyValue? key) := by
  unfold Site.propertyValue?
  rw [← c.hasKind h]
  split
  · next hobject =>
    refine Parallel.firstSome (c.pairs h hobject) fun pair pair' ⟨hkind, hpair⟩ => ?_
    rw [← c.pairKey hpair hkind]
    refine (Parallel.refl _).bind fun k _ hk => hk ▸ ?_
    split
    · exact .ok (c.part hpair (Site.isScope_eq_false hkind rfl) .value)
    · exact .ok .none
  · exact .ok .none

theorem isShorthand (h : Same s s') (key : String) : s.isShorthand key = s'.isShorthand key := by
  unfold Site.isShorthand
  rw [← c.hasKind h]
  cases hs : s.hasKind .shorthandPropertyIdentifier with
  | false => rfl
  | true =>
    have htext := c.nameText h (by rw [Site.isNameUse, hs, Bool.or_true])
    rw [htext]

theorem memberValue (h : Same s s') (key : String) :
    Parallel (Option.Rel (Unwrapped Same)) (s.memberValue? key) (s'.memberValue? key) := by
  unfold Site.memberValue?
  refine (c.propertyValue h key).bind fun v v' hv => ?_
  cases hv with
  | some hv => exact .ok (.some hv)
  | none =>
    dsimp only
    rw [← c.hasKind h]
    split
    · next hobject =>
      have hfound := forall₂_find (c.members h hobject) fun _ _ hm => c.isShorthand hm key
      refine .ok ?_
      rcases option_rel_cases hfound with ⟨hm, hm'⟩ | ⟨m, m', hm, hm', hsame⟩ <;> rw [hm, hm']
      · exact .none
      · exact .some (c.unwrapped hsame)
    · exact .ok .none

/-- What stands behind a key of a literal. -/
theorem entry (h : Same s s') (hs : (s.hasKind .object || s.hasKind .array) = true) (key : String) :
    Parallel (Option.Rel (Unwrapped Same)) (entryAt? s key) (entryAt? s' key) := by
  unfold entryAt?
  rw [← c.hasKind h]
  split
  · exact c.memberValue h key
  · next hobject =>
    have harray : s.hasKind .array = true := (Bool.or_eq_true_iff.1 hs).resolve_left hobject
    unfold elementAt?
    split
    · refine (Parallel.refl _).bind fun i _ hi => hi ▸ .ok ?_
      exact forall₂_getElem (c.elements h harray) i.toNat
    · exact .ok .none

/-! ### References -/

/-- What a declaration gives for its name. -/
theorem declaredValue {d d' : Declaration} (h : Declaration.Alike Same Init d d') :
    Option.Rel Init d.value? d'.value? := by
  unfold Declaration.value?
  have hbinding := h.binding
  generalize d.binding = b at hbinding
  generalize d'.binding = b' at hbinding
  cases hbinding with
  | initialized hv => exact hv
  | same _ hnot =>
    cases b
    case function => exact .some (c.same h.site)
    case «variable» v => exact absurd rfl (hnot v)
    all_goals exact .none

theorem initializer (h : Same s s') (hs : s.isNameUse = true) :
    Parallel (Option.Rel Init) (p.initializer? s) (p'.initializer? s') := by
  unfold Project.initializer?
  refine (c.declaration h hs).bind fun d d' hd => ?_
  cases hd with
  | none => exact .ok (c.spelled h hs)
  | some hd => exact .ok (c.declaredValue hd)

theorem chain {object? object'? : Site → Attempt (Option Site)}
    (hobject : ∀ base base', Unwrapped Same base base' →
      Parallel (Option.Rel Same) (object? base) (object'? base'))
    (steps : Nat) (h : Same s s') :
    Parallel (Option.Rel Same) (p.chain object? steps s) (p'.chain object'? steps s') := by
  induction steps generalizing s s' with
  | zero => exact .ok .none
  | succ steps ih =>
    unfold Project.chain
    rw [← c.hasKind h, ← c.hasKind h]
    split
    · next hname =>
      refine (c.initializer h (Site.isNameUse_of_identifier hname)).bind fun n n' hn => ?_
      cases hn with
      | none => exact .ok .none
      | some hn => exact ih (c.initial hn)
    · split
      · next haccess =>
        rcases option_rel_cases (c.accessParts h haccess) with
          ⟨hp, hp'⟩ | ⟨⟨base, key⟩, ⟨base', _⟩, hp, hp', hbase, rfl⟩
        · rw [hp, hp']
          exact .ok .none
        · rw [hp, hp']
          refine (hobject base base' hbase).bind fun o o' ho => ?_
          cases ho with
          | none => exact .ok .none
          | some ho =>
            refine (c.propertyValue ho key).bind fun n n' hn => ?_
            cases hn with
            | none => exact .ok .none
            | some hn => exact ih hn
      · exact .ok (.some h)

theorem onlyKind {o o' : Option Site} (h : Option.Rel Same o o') (k : Kind) :
    Option.Rel Same (onlyKind k o) (onlyKind k o') :=
  option_rel_filter h fun _ _ hs => c.hasKind hs k

/-- **References.** Corresponding expressions denote corresponding ones. -/
theorem denotedWithin (depth : Nat) (h : Unwrapped Same s s') :
    Parallel (Option.Rel Same) (p.denotedWithin depth s) (p'.denotedWithin depth s') := by
  induction depth generalizing s s' with
  | zero => exact .fault
  | succ depth ih =>
    exact c.chain (fun base base' hbase => (ih hbase).map fun _ _ ho => c.onlyKind ho .object) _ h

theorem denoted (h : Unwrapped Same s s') :
    Parallel (Option.Rel Same) (p.denoted? s) (p'.denoted? s') := c.denotedWithin _ h

end Correspondence

/-! ### Outcomes -/

theorem finiteResult_alike (text text' : String) (v : Value) :
    Parallel (Outcome.Alike Eq) (finiteResult text v) (finiteResult text' v) := by
  unfold finiteResult
  split
  · split
    · exact .ok (.value rfl)
    · exact .ok (.failure rfl)
  · exact .ok (.value rfl)

theorem numberOf_alike {o o' : Outcome Value} (h : Outcome.Alike Eq o o') :
    numberOf? o = numberOf? o' := by
  cases h with
  | value hv => rw [hv]
  | failure => rfl

namespace Correspondence

variable {p p' : Project} {Same Init : Site → Site → Prop} (c : Correspondence p p' Same Init)
  {s s' base base' : Site} {b b' : Bindings} {recur recur' : Evaluator} {key : String}

include c

/-! ### Operators -/

theorem numeralValue (h : Same s s') (hs : s.hasKind .number = true) :
    Parallel (Outcome.Alike Eq) (numeralValue s) (numeralValue s') := by
  have htext : s.text = s'.text := c.word h (by simp [Site.isWord, hs])
  unfold SettingsHarvest.numeralValue
  rw [← htext]
  split
  · exact finiteResult_alike _ _ _
  · exact .ok (.failure rfl)

theorem partValue (hrecur : EvaluatesAlike Same recur recur') (h : Same s s')
    (hs : s.isScope = false) (hb : Bindings.Alike Same b b') (r : Role) :
    Parallel (Outcome.Alike Eq) (partValue recur b s r) (partValue recur' b' s' r) := by
  unfold SettingsHarvest.partValue
  rcases option_rel_cases (c.part h hs r) with ⟨hr, hr'⟩ | ⟨part, part', hr, hr', hpart⟩
  · rw [hr, hr']
    exact .ok (.failure rfl)
  · rw [hr, hr']
    exact hrecur _ _ _ _ hpart hb

theorem binaryValue (hrecur : EvaluatesAlike Same recur recur') (h : Same s s')
    (hs : s.isScope = false) (hb : Bindings.Alike Same b b') :
    Parallel (Outcome.Alike Eq) (binaryValue recur b s) (binaryValue recur' b' s') := by
  unfold SettingsHarvest.binaryValue
  rw [← c.operator h]
  split
  · exact .ok (.failure rfl)
  · next o _ =>
    refine (c.partValue hrecur h hs hb .left).bind fun left left' hleft => ?_
    refine (c.partValue hrecur h hs hb .right).bind fun right right' hright => ?_
    rw [← numberOf_alike hleft, ← numberOf_alike hright]
    split
    · split
      · exact .ok (.failure rfl)
      · refine (Parallel.refl _).bind fun v _ hv => hv ▸ ?_
        split
        · exact finiteResult_alike _ _ _
        · exact .ok (.failure rfl)
    · exact .ok (.failure rfl)

theorem unaryValue (hrecur : EvaluatesAlike Same recur recur') (h : Same s s')
    (hs : s.isScope = false) (hb : Bindings.Alike Same b b') :
    Parallel (Outcome.Alike Eq) (unaryValue recur b s) (unaryValue recur' b' s') := by
  unfold SettingsHarvest.unaryValue
  rw [← c.operator h]
  split
  · exact .ok (.failure rfl)
  · refine (c.partValue hrecur h hs hb .argument).bind fun v v' hv => ?_
    rw [← numberOf_alike hv]
    split
    · exact (Parallel.refl _).bind fun v _ hv => hv ▸ finiteResult_alike _ _ _
    · exact .ok (.failure rfl)

/-! ### Enumerations -/

omit c in
/-- The members read so far are the same, so an initializer is evaluated under the same bindings. -/
theorem bindings_refl (Same : Site → Site → Prop) (r : EnumReading) :
    Bindings.Alike Same r.bindings r.bindings := by
  unfold EnumReading.bindings
  induction r.members with
  | nil => exact .nil
  | cons m rest ih => exact .cons ⟨rfl, .value m.2⟩ ih

omit c in
theorem addMember (hrecur : EvaluatesAlike Same recur recur') (r : EnumReading)
    (h : MemberAlike Same s s') : Parallel Eq (r.add recur s) (r.add recur' s') := by
  obtain ⟨hname, hinitializer⟩ := h
  unfold EnumReading.add
  generalize hparts : (if s.hasKind .enumAssignment then (s.part? .name, s.part? .value)
    else (some s, none)) = parts
  generalize hparts' : (if s'.hasKind .enumAssignment then (s'.part? .name, s'.part? .value)
    else (some s', none)) = parts'
  have hparts : memberParts s = parts := hparts
  have hparts' : memberParts s' = parts' := hparts'
  rw [hparts, hparts'] at hname hinitializer
  obtain ⟨name?, value?⟩ := parts
  obtain ⟨name'?, value'?⟩ := parts'
  cases hname with
  | none => exact .ok rfl
  | some hname =>
    dsimp only
    rw [← hname]
    refine (Parallel.refl _).bind fun name _ heq => heq ▸ ?_
    rcases option_rel_cases hinitializer with ⟨hv, hv'⟩ | ⟨v, v', hv, hv', hunwrapped⟩
    · obtain rfl : value? = none := hv
      obtain rfl : value'? = none := hv'
      exact .refl _
    · obtain rfl : value? = some v := hv
      obtain rfl : value'? = some v' := hv'
      refine (hrecur _ _ _ _ hunwrapped (bindings_refl Same r)).bind fun o o' ho => ?_
      cases ho with
      | value hv => exact .ok (by rw [hv])
      | failure => exact .ok rfl

omit c in
theorem enumMembers (hrecur : EvaluatesAlike Same recur recur')
    (h : List.Forall₂ (MemberAlike Same) (membersOf s) (membersOf s')) :
    enumMembersBy recur s = enumMembersBy recur' s' := by
  have hread : Parallel Eq
      ((membersOf s).foldlM (EnumReading.add recur) ⟨[], some (.integer 0)⟩)
      ((membersOf s').foldlM (EnumReading.add recur') ⟨[], some (.integer 0)⟩) :=
    Parallel.foldlM h rfl fun r _ _ _ hr hmember => hr ▸ addMember hrecur r hmember
  rw [enumMembersBy_eq, enumMembersBy_eq]
  generalize List.foldlM (EnumReading.add recur) _ (membersOf s) = x at hread
  generalize List.foldlM (EnumReading.add recur') _ (membersOf s') = x' at hread
  cases hread with
  | ok hr => rw [hr]
  | fault => rfl

/-! ### Names and members -/

/-- Names are bound alike in both places, or in neither. -/
theorem bound (hb : Bindings.Alike Same b b') (h : Same s s') (hs : s.isNameUse = true) :
    Option.Rel (Bound.Alike Same) (b.lookup s.text) (b'.lookup s'.text) :=
  c.nameText h hs ▸ hb.lookup s.text

theorem declaredEnumMember (hrecur : EvaluatesAlike Same recur recur') (h : Same base base')
    (hb : Bindings.Alike Same b b') :
    Parallel Eq (p.declaredEnumMember? recur b base key)
      (p'.declaredEnumMember? recur' b' base' key) := by
  unfold Project.declaredEnumMember?
  rw [← c.hasKind h]
  cases hname : base.hasKind .identifier with
  | false => exact .ok rfl
  | true =>
    have huse := Site.isNameUse_of_identifier hname
    have hbound : (b.lookup base.text).isNone = (b'.lookup base'.text).isNone := by
      rcases option_rel_cases (c.bound hb h huse) with ⟨hx, hx'⟩ | ⟨_, _, hx, hx', -⟩ <;> rw [hx, hx']
      rfl
    rw [← hbound]
    split
    · refine (c.declaration h huse).bind fun d d' hd => ?_
      cases hd with
      | none => exact .ok rfl
      | some hd =>
        rename_i d d'
        obtain ⟨name, site, binding⟩ := d
        obtain ⟨name', site', binding'⟩ := d'
        obtain ⟨-, -, hbinding, hmembers⟩ := hd
        cases hbinding with
        | initialized => exact .ok rfl
        | same =>
          cases binding
          case enumeration =>
            dsimp only
            rw [enumMembers hrecur (hmembers rfl)]
            exact .refl _
          all_goals exact .ok rfl
    · exact .ok rfl

theorem container (h : Same base base') (hb : Bindings.Alike Same b b') :
    Parallel (Option.Rel fun s s' => (s.hasKind .object || s.hasKind .array) = true ∧ Same s s')
      (p.container? b base) (p'.container? b' base') := by
  have hstart : ∀ start start', Unwrapped Same start start' →
      Parallel (Option.Rel fun s s' => (s.hasKind .object || s.hasKind .array) = true ∧ Same s s')
        (do return (← p.denoted? start).filter fun s => s.hasKind .object || s.hasKind .array)
        (do return (← p'.denoted? start').filter fun s => s.hasKind .object || s.hasKind .array) := by
    intro start start' hstart
    refine (c.denoted hstart).bind fun o o' ho => .ok ?_
    cases ho with
    | none => exact .none
    | some hs =>
      rw [Option.filter_some, Option.filter_some, ← c.hasKind hs, ← c.hasKind hs]
      split
      · next hkind => exact .some ⟨hkind, hs⟩
      · exact .none
  unfold Project.container?
  rw [← c.hasKind h]
  split
  · next hname =>
    rcases option_rel_cases (c.bound hb h (Site.isNameUse_of_identifier hname)) with
      ⟨hx, hx'⟩ | ⟨x, x', hx, hx', hbound⟩
    · rw [hx, hx']
      exact hstart base base' (c.unwrapped h)
    · rw [hx, hx']
      cases hbound with
      | value v => exact .ok .none
      | expression hs => exact hstart _ _ hs
  · exact hstart base base' (c.unwrapped h)

theorem entryIn (h : Same base base') (hb : Bindings.Alike Same b b') :
    Parallel (Option.Rel (Unwrapped Same)) (entryIn p b base key) (entryIn p' b' base' key) := by
  unfold SettingsHarvest.entryIn
  refine (c.container h hb).bind fun o o' ho => ?_
  cases ho with
  | none => exact .ok .none
  | some ho => exact c.entry ho.2 ho.1 key

/-- What is read from a literal or an enumeration is evaluated without bindings. -/
theorem accessValue (hrecur : EvaluatesAlike Same recur recur') (h : Unwrapped Same base base')
    (hb : Bindings.Alike Same b b') :
    Parallel (Outcome.Alike Eq) (p.accessValue recur b base key)
      (p'.accessValue recur' b' base' key) := by
  rw [accessValue_eq, accessValue_eq]
  refine (c.declaredEnumMember hrecur h hb).bind fun o _ ho => ho ▸ ?_
  cases o with
  | some v => exact .ok (.value rfl)
  | none =>
    refine (c.entryIn h hb).bind fun e e' he => ?_
    cases he with
    | some he => exact hrecur _ _ _ _ he .nil
    | none =>
      unfold entryValue
      dsimp only
      rw [← c.outside h]
      split
      · exact .ok (.value rfl)
      · exact .ok (.failure rfl)

theorem memberValueOf (hrecur : EvaluatesAlike Same recur recur') (h : Same s s')
    (hs : s.hasKind .memberExpression = true) (hb : Bindings.Alike Same b b') :
    Parallel (Outcome.Alike Eq) (p.memberValue recur b s) (p'.memberValue recur' b' s') := by
  unfold Project.memberValue
  rcases option_rel_cases (c.accessParts h hs) with
    ⟨hp, hp'⟩ | ⟨⟨base, key⟩, ⟨base', _⟩, hp, hp', hbase, rfl⟩
  · rw [hp, hp']
    exact .ok (.failure rfl)
  · rw [hp, hp']
    exact c.accessValue hrecur hbase hb

theorem elementValue (hrecur : EvaluatesAlike Same recur recur') (h : Same s s')
    (hs : s.isScope = false) (hb : Bindings.Alike Same b b') :
    Parallel (Outcome.Alike Eq) (p.elementValue recur b s) (p'.elementValue recur' b' s') := by
  unfold Project.elementValue
  refine (c.partValue hrecur h hs hb .index).bind fun o o' ho => ?_
  cases ho with
  | failure => exact .ok (.failure rfl)
  | value hv =>
    rename_i v v'
    obtain rfl : v = v' := hv
    rcases option_rel_cases (c.part h hs .object) with ⟨hp, hp'⟩ | ⟨base, base', hp, hp', hbase⟩
    · rw [hp, hp']
      cases v <;> exact .ok (.failure rfl)
    · rw [hp, hp']
      cases v
      case text key => exact c.accessValue hrecur hbase hb
      all_goals
        dsimp only
        split
        · exact (Parallel.refl _).bind fun key _ hkey => hkey ▸ c.accessValue hrecur hbase hb
        · exact .ok (.failure rfl)

theorem nameValue (hrecur : EvaluatesAlike Same recur recur') (h : Same s s')
    (hs : s.isNameUse = true) (hb : Bindings.Alike Same b b') :
    Parallel (Outcome.Alike Eq) (p.nameValue recur b s) (p'.nameValue recur' b' s') := by
  unfold Project.nameValue
  rcases option_rel_cases (c.bound hb h hs) with ⟨hx, hx'⟩ | ⟨x, x', hx, hx', hbound⟩
  · rw [hx, hx']
    refine (c.initializer h hs).bind fun n n' hn => ?_
    cases hn with
    | none => exact .ok (.failure rfl)
    | some hn =>
      refine (hrecur _ _ _ _ (c.initial hn) .nil).bind fun o o' ho => ?_
      cases ho with
      | value hv => exact .ok (.value hv)
      | failure => exact .ok (.failure rfl)
  · rw [hx, hx']
    cases hbound with
    | value v => exact .ok (.value rfl)
    | expression he => exact hrecur _ _ _ _ he .nil

/-! ### Expressions -/

/-- One step answers alike, if the steps it asks for do. -/
theorem valueOf (hrecur : EvaluatesAlike Same recur recur') (h : Same s s')
    (hb : Bindings.Alike Same b b') :
    Parallel (Outcome.Alike Eq) (p.valueOf recur b s) (p'.valueOf recur' b' s') := by
  unfold Project.valueOf
  rw [← c.kind h]
  split
  · next hkind =>
    rw [c.stringValue h (by simp [Site.isStringLiteral, Site.hasKind_iff.2 hkind])]
    exact (Parallel.refl _).bind fun t _ ht => ht ▸ .ok (.value rfl)
  · next hkind =>
    rw [← c.substitutions h (Site.hasKind_iff.2 hkind)]
    split
    · exact .ok (.failure rfl)
    · next hplain =>
      rw [c.stringValue h (by simp [Site.isStringLiteral, Site.hasKind_iff.2 hkind, hplain])]
      exact (Parallel.refl _).bind fun t _ ht => ht ▸ .ok (.value rfl)
  · next hkind => exact c.numeralValue h (Site.hasKind_iff.2 hkind)
  · exact .ok (.value rfl)
  · exact .ok (.value rfl)
  · next hkind => exact c.nameValue hrecur h (by simp [Site.isNameUse, Site.hasKind_iff, hkind]) hb
  · next hkind => exact c.nameValue hrecur h (by simp [Site.isNameUse, Site.hasKind_iff, hkind]) hb
  · next hkind => exact c.memberValueOf hrecur h (Site.hasKind_iff.2 hkind) hb
  · next hkind => exact c.elementValue hrecur h (Site.isScope_eq_false (Site.hasKind_iff.2 hkind) rfl) hb
  · next hkind => exact c.binaryValue hrecur h (Site.isScope_eq_false (Site.hasKind_iff.2 hkind) rfl) hb
  · next hkind => exact c.unaryValue hrecur h (Site.isScope_eq_false (Site.hasKind_iff.2 hkind) rfl) hb
  · exact .ok (.failure rfl)

/-- **Evaluation.** Corresponding expressions evaluate alike, however deep. -/
theorem evaluateWithin (depth : Nat) :
    EvaluatesAlike Same (p.evaluateWithin depth) (p'.evaluateWithin depth) := by
  induction depth with
  | zero => exact fun _ _ _ _ _ _ => .ok (.failure rfl)
  | succ depth ih => exact fun _ _ _ _ h hb => c.valueOf ih h hb

end Correspondence
end SettingsHarvest
