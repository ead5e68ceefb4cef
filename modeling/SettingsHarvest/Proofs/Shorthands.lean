import SettingsHarvest.Proofs.AliasedDefaults
import SettingsHarvest.Proofs.BoundNames
import SettingsHarvest.Proofs.ExtractionCorrespondence
import SettingsHarvest.Proofs.Substitution

/-! Names that are members by themselves.

In an object literal `k` abbreviates `k: k`. Two literals in one place, one with such names written out in
the other (`Site.Abbreviates`), have members that mean the same (`Abbreviates.memberValue`): the same
expression aside its place, or one name in two places where the same is declared (`Site.MeansSame`). So
whatever asks for members by their keys comes to the same with both (`Project.KeepsMeaning`). What goes
through the pairs of a literal instead, as references do, passes over a name that is written alone
(`Project.Overlooks`). -/
namespace SettingsHarvest
open Syntax Project

namespace Syntax

/-- A name alone, and the pair with the name as key and as value. -/
structure Node.Abbreviates (alone pair : Node) : Prop where
  isAlone : alone.hasKind .shorthandPropertyIdentifier = true
  isPair : pair.hasKind .pair = true
  key : ∃ k, pair.part? .key = some k ∧ k.hasKind .propertyIdentifier = true ∧ k.text = alone.text
  value : ∃ v, pair.part? .value = some v ∧ v.hasKind .identifier = true ∧ v.text = alone.text

/-- No options are related. -/
def Site.Never (_ _ : Site) : Prop := False

/-- Members of two object literals: the same, a name that is alone in the first and written out in the
second, where no pair of the first has it as key, or options that are related. -/
def Site.MemberAlike (Options : Site → Site → Prop) (o o' : Site) (m m' : Node) : Prop :=
  m = m' ∨ (m.Abbreviates m' ∧ o.propertyValue? m.text = .ok none) ∨
    ((o.inside m).IsPair "options" ∧ (o'.inside m').IsPair "options") ∧
      Option.Rel Options (o.inside m).pairValue? (o'.inside m').pairValue?

/-- Two object literals inside of the same scopes, one with names alone that the other writes out. -/
structure Site.Abbreviates (Options : Site → Site → Prop) (o o' : Site) : Prop where
  file : o.file = o'.file
  around : Beyond o.above o'.above
  nested : o.above ≠ []
  isObject : o.hasKind .object = true
  alsoObject : o'.hasKind .object = true
  members : List.Forall₂ (o.MemberAlike Options o') o.node.named o'.node.named

/-- No name is alone under a key. -/
def Site.WritesOut (o : Site) (key : String) : Prop := ∀ m ∈ o.named, m.isShorthand key = false

instance (o : Site) (key : String) : Decidable (o.WritesOut key) :=
  inferInstanceAs (Decidable (∀ m ∈ o.named, m.isShorthand key = false))

/-- One name in two places inside of the same scopes. -/
structure Site.SameName (s s' : Site) : Prop where
  isName : s.isNameUse = true
  alsoName : s'.isNameUse = true
  moved : ∃ t, s.Aside t ∧ t.Beside s' ∧ t.text = s'.text

/-- An expression aside another one, or the same name. -/
def Site.MeansSame (s s' : Site) : Prop := Unwrapped Aside s s' ∨ s.SameName s'

end Syntax

/-! ### Names -/

namespace Syntax.Site
namespace SameName

variable {p : Project} {s s' : Site} {b b' : Bindings} {recur recur' : Evaluator}

theorem nameValue (h : s.SameName s') (hrecur : EvaluatesAlike Aside recur recur')
    (hb : Bindings.Alike Aside b b') :
    Parallel (Outcome.Alike Eq) (p.nameValue recur b s) (p.nameValue recur' b' s') := by
  obtain ⟨t, haside, hbeside, htext⟩ := h.moved
  have hmoved : p.nameValue recur' b' t = p.nameValue recur' b' s' := by
    unfold Project.nameValue
    rw [htext, hbeside.initializer htext]
  rw [← hmoved]
  exact (Aside.correspondence p).nameValue hrecur haside h.isName hb

theorem evaluateWithin (h : s.SameName s') (hb : Bindings.Alike Aside b b') (depth : Nat) :
    Parallel (Outcome.Alike Eq) (p.evaluateWithin depth s b) (p.evaluateWithin depth s' b') := by
  cases depth with
  | zero => exact .ok (.failure rfl)
  | succ depth =>
    rw [Project.evaluateWithin, Project.evaluateWithin, unwrap_of_isNameUse h.isName,
      unwrap_of_isNameUse h.alsoName, valueOf_of_isNameUse h.isName, valueOf_of_isNameUse h.alsoName]
    exact h.nameValue ((Aside.correspondence p).evaluateWithin depth) hb

end SameName

namespace MeansSame

variable {p : Project} {s s' : Site} {b b' : Bindings}

/-- What means the same has the same value, however deep. -/
theorem evaluateWithin (h : s.MeansSame s') (hb : Bindings.Alike Aside b b') (depth : Nat) :
    Parallel (Outcome.Alike Eq) (p.evaluateWithin depth s b) (p.evaluateWithin depth s' b') := by
  rcases h with h | h
  · exact (Aside.correspondence p).evaluateWithin depth _ _ _ _ h hb
  · exact h.evaluateWithin hb depth

theorem evaluate (h : s.MeansSame s') (hb : Bindings.Alike Aside b b') :
    Parallel (Outcome.Alike Eq) (p.evaluate s b) (p.evaluate s' b') := h.evaluateWithin hb _

/-- Names are of no other kind. -/
theorem hasKind_unwrap (h : s.MeansSame s') {k : Kind} (hk : k ≠ .identifier)
    (hk' : k ≠ .shorthandPropertyIdentifier) : s.unwrap.hasKind k = s'.unwrap.hasKind k := by
  rcases h with h | h
  · exact Aside.hasKind_eq h k
  · rw [unwrap_of_isNameUse h.isName, unwrap_of_isNameUse h.alsoName,
      hasKind_of_isNameUse h.isName hk hk', hasKind_of_isNameUse h.alsoName hk hk']

end MeansSame
end Syntax.Site

/-! ### Searches -/

section Searches

variable {α α' β β' : Type} {P : α → α' → Prop} {Q : β → β' → Prop} {items : List α}
  {items' : List α'}

theorem firstSome_filter (f : α → Attempt (Option β)) (wanted : α → Bool) (items : List α) :
    firstSome f (items.filter wanted) = firstSome (fun a => if wanted a then f a else .ok none) items := by
  induction items with
  | nil => rfl
  | cons a rest ih =>
    rw [List.filter_cons, firstSome]
    split
    · rw [firstSome, ih]
    · exact ih

theorem firstSome_eq_none {f : α → Attempt (Option β)} (h : ∀ a ∈ items, f a = .ok none) :
    firstSome f items = .ok none := by
  induction items with
  | nil => rfl
  | cons a rest ih =>
    obtain ⟨ha, hrest⟩ := List.forall_mem_cons.1 h
    rw [firstSome, ha]
    exact ih hrest

/-- Two searches answer alike, unless the second one has an answer of its own first. -/
theorem firstSome_cases {f : α → Attempt (Option β)} {f' : α' → Attempt (Option β')} {own : α → Prop}
    {answer : β' → Prop} (h : List.Forall₂ P items items')
    (hf : ∀ a a', P a a' → Parallel (Option.Rel Q) (f a) (f' a') ∨
      own a ∧ ∃ b, answer b ∧ f' a' = .ok (some b)) :
    Parallel (Option.Rel Q) (firstSome f items) (firstSome f' items') ∨
      (∃ a ∈ items, own a) ∧ ∃ b, answer b ∧ firstSome f' items' = .ok (some b) := by
  induction h with
  | nil => exact .inl (.ok .none)
  | @cons a a' rest rest' ha _ ih =>
    rw [firstSome, firstSome]
    rcases hf a a' ha with hstep | ⟨hown, b, hb, hfound⟩
    · generalize f a = x at hstep
      generalize f' a' = x' at hstep
      cases hstep with
      | fault => exact .inl .fault
      | ok hstep =>
        cases hstep with
        | some hb => exact .inl (.ok (.some hb))
        | none =>
          refine ih.imp_right ?_
          rintro ⟨⟨n, hn, hown⟩, found⟩
          exact ⟨⟨n, List.mem_cons_of_mem a hn, hown⟩, found⟩
    · rw [hfound]
      exact .inr ⟨⟨a, List.mem_cons_self, hown⟩, b, hb, rfl⟩

end Searches

/-! ### Members -/

namespace Syntax.Site

/-- What a member has for value, if it is a pair with the key that is asked for. -/
def memberUnder (member : Site) (key : String) : Attempt (Option Site) :=
  if member.hasKind .pair then Substituted.valueUnder key member else .ok none

theorem propertyValue_eq_memberUnder {o : Site} (ho : o.hasKind .object = true) (key : String) :
    o.propertyValue? key = firstSome (·.memberUnder key) o.named := by
  rw [Substituted.propertyValue_eq ho, firstSome_filter]
  rfl

/-- A name used inside of an object literal, in none of the scopes in it. -/
structure Uses (o : Site) (key : String) (s : Site) : Prop where
  isName : s.hasKind .identifier = true
  spelled : s.text = key
  beside : o.Beside s

namespace Abbreviates

variable {Options : Site → Site → Prop} {o o' s' : Site} {m m' : Node} {key : String}

/-- What an object literal holds is inside of the same scopes. -/
theorem inside (h : o.Abbreviates Options o') (m : Node) : (o.inside m).Aside (o'.inside m) := by
  have hsilent {s : Site} (hs : s.hasKind .object = true) : s.node.isSilent = true := by
    rw [Node.isSilent, show s.node.isScope = false from isScope_eq_false hs rfl, Node.hasKind,
      eq_of_beq hs]
    rfl
  exact ⟨h.file, .apart (hsilent h.isObject) (hsilent h.alsoObject) h.nested h.around, rfl⟩

/-- A name alone in the first literal is the same name as one used in the second. -/
theorem sameName (h : o.Abbreviates Options o') (halone : (o.inside m).isShorthand key = true)
    (huses : o'.Uses key s') : (o.inside m).SameName s' := by
  obtain ⟨hkind, htext⟩ := Bool.and_eq_true_iff.1 halone
  have hbeside : (o'.inside m).Beside s' :=
    (Beside.part (isScope_eq_false h.alsoObject rfl) m).symm.trans huses.beside
  exact ⟨Bool.or_eq_true_iff.2 (.inr hkind), isNameUse_of_identifier huses.isName,
    o'.inside m, h.inside m, hbeside, (eq_of_beq htext).trans huses.spelled.symm⟩

/-- A pair that a name abbreviates has the name as key and as value. -/
theorem exists_value (h : o.Abbreviates Options o') (hm : m.Abbreviates m') :
    (o'.inside m').IsPair m.text ∧ ∃ v, (o'.inside m').pairValue? = some v ∧ o'.Uses m.text v := by
  obtain ⟨k, hk, hkind, hkey⟩ := hm.key
  obtain ⟨v, hv, hname, htext⟩ := hm.value
  have hpart (r : Role) {part : Node} (hpart : m'.part? r = some part) :
      (o'.inside m').part? r = some ((o'.inside m').inside part) := by
    rw [part?, show (o'.inside m').node = m' from rfl, hpart]
    rfl
  refine ⟨⟨hm.isPair, ?_⟩, _, hpart .value hv, hname, htext, ?_⟩
  · rw [memberKey?, hpart .key hk, Option.some_or]
    dsimp only
    rw [show ((o'.inside m').inside k).kind? = some .propertyIdentifier from eq_of_beq hkind]
    exact congrArg (fun t => Except.ok (some t)) hkey
  · exact (Beside.part (isScope_eq_false h.alsoObject rfl) m').trans
      (.part (isScope_eq_false (s := o'.inside m') hm.isPair rfl) v)

/-- Expressions behind a key: one aside the other, or related options. -/
def Behind (Options : Site → Site → Prop) (key : String) (v v' : Site) : Prop :=
  v.Aside v' ∨ key = "options" ∧ Options v v'

theorem memberUnder_aside (h : o.Abbreviates Options o') (m : Node) (key : String) :
    Parallel (Option.Rel (Behind Options key)) ((o.inside m).memberUnder key)
      ((o'.inside m).memberUnder key) := by
  unfold memberUnder Substituted.valueUnder
  rw [← (h.inside m).hasKind_eq, ← memberKey_eq_of_node (h.inside m).node]
  split
  · refine .same_bind _ fun k _ => ?_
    split
    · exact .ok (option_rel_mono ((h.inside m).part .value) fun _ _ => .inl)
    · exact .ok .none
  · exact .ok .none

theorem memberUnder_pair {pair : Site} {found : String} (hpair : pair.IsPair found) (key : String) :
    pair.memberUnder key = .ok (if found = key then pair.pairValue? else none) := by
  rw [memberUnder, if_pos hpair.1, Substituted.valueUnder, hpair.2]
  show (if (some found == some key) = true then _ else _) = _
  by_cases heq : found = key
  · rw [if_pos heq, heq, beq_self_eq_true]
    rfl
  · rw [if_neg heq, beq_eq_false_iff_ne.2 fun hsome => heq (Option.some.inj hsome)]
    rfl

/-- What a member has under a key: a name that was written out, or else what its partner has. -/
theorem memberUnder_cases (h : o.Abbreviates Options o') (hm : o.MemberAlike Options o' m m')
    (key : String) :
    Parallel (Option.Rel (Behind Options key)) ((o.inside m).memberUnder key)
        ((o'.inside m').memberUnder key) ∨
      ((o.inside m).isShorthand key = true ∧ o.propertyValue? key = .ok none) ∧
        ∃ v, o'.Uses key v ∧ (o'.inside m').memberUnder key = .ok (some v) := by
  rcases hm with rfl | ⟨hm, hnone⟩ | ⟨⟨hpair, hpair'⟩, hv⟩
  · exact .inl (h.memberUnder_aside m key)
  · obtain ⟨hpair, v, hv, huses⟩ := h.exists_value hm
    rw [memberUnder_pair hpair, hv]
    by_cases heq : m.text = key
    · subst heq
      rw [if_pos rfl]
      exact .inr ⟨⟨Bool.and_eq_true_iff.2 ⟨hm.isAlone, beq_self_eq_true _⟩, hnone⟩, v, huses, rfl⟩
    · rw [if_neg heq, memberUnder, hasKind_ne (s := o.inside m) hm.isAlone (by decide)]
      exact .inl (.ok .none)
  · rw [memberUnder_pair hpair, memberUnder_pair hpair']
    split
    · next hkey => exact .inl (.ok (option_rel_mono hv fun _ _ hv => .inr ⟨hkey.symm, hv⟩))
    · exact .inl (.ok .none)

/-- A key leads to a name that was written out, or else to what it leads to in the other literal. -/
theorem propertyValue_cases (h : o.Abbreviates Options o') (key : String) :
    Parallel (Option.Rel (Behind Options key)) (o.propertyValue? key) (o'.propertyValue? key) ∨
      (∃ m ∈ o.named, m.isShorthand key = true ∧ o.propertyValue? key = .ok none) ∧
        ∃ v, o'.Uses key v ∧ o'.propertyValue? key = .ok (some v) := by
  have hmembers : List.Forall₂ (fun m m' => Parallel (Option.Rel (Behind Options key))
      (m.memberUnder key) (m'.memberUnder key) ∨
        (m.isShorthand key = true ∧ o.propertyValue? key = .ok none) ∧
          ∃ v, o'.Uses key v ∧ m'.memberUnder key = .ok (some v)) o.named o'.named := by
    rw [named, named, List.forall₂_map_left_iff, List.forall₂_map_right_iff]
    exact h.members.imp fun _ _ hm => h.memberUnder_cases hm key
  rw [propertyValue_eq_memberUnder h.alsoObject]
  refine (firstSome_cases hmembers fun _ _ hm => hm).imp_left fun halike => ?_
  rw [propertyValue_eq_memberUnder h.isObject]
  exact halike

/-- Without a name alone under the key, references read the same from both literals. -/
theorem propertyValue (h : o.Abbreviates Options o') (hout : o.WritesOut key) :
    Parallel (Option.Rel (Behind Options key)) (o.propertyValue? key) (o'.propertyValue? key) := by
  rcases h.propertyValue_cases key with halike | ⟨⟨m, hm, halone, -⟩, -⟩
  · exact halike
  · cases halone.symm.trans (hout m hm)

/-- Where no pair has the key, the same names are alone under it. -/
theorem alone (h : o.Abbreviates Options o') (hnone : o'.propertyValue? key = .ok none) :
    Option.Rel Aside (o.named.find? (·.isShorthand key)) (o'.named.find? (·.isShorthand key)) := by
  rw [propertyValue_eq_memberUnder h.alsoObject] at hnone
  have hpairs := forall_of_firstSome hnone
  have hnot {member : Site} (hmember : member.hasKind .pair = true) : member.isShorthand key = false := by
    rw [isShorthand, hasKind_ne hmember (by decide), Bool.false_and]
  have hmembers : List.Forall₂ (fun m m' => m.isShorthand key = m'.isShorthand key ∧
      (m.isShorthand key = true → m.Aside m')) o.named o'.named := by
    rw [named, named, List.forall₂_map_left_iff, List.forall₂_map_right_iff]
    refine (forall₂_mem h.members).imp ?_
    rintro m m' ⟨⟨-, hm'⟩, rfl | ⟨hm, -⟩ | ⟨⟨hpair, hpair'⟩, -⟩⟩
    · exact ⟨rfl, fun _ => h.inside m⟩
    · obtain ⟨hpair, v, hv, -⟩ := h.exists_value hm
      have hskip := hpairs (o'.inside m') (List.mem_map_of_mem hm')
      rw [memberUnder_pair hpair, hv] at hskip
      have hne : m.text ≠ key := fun heq => by
        rw [if_pos heq] at hskip
        cases hskip
      have hother : (o.inside m).isShorthand key = false := by
        rw [isShorthand, show (o.inside m).text = m.text from rfl, beq_eq_false_iff_ne.2 hne, Bool.and_false]
      exact ⟨hother.trans (hnot hpair.1).symm,
        fun htrue => (Bool.false_ne_true (hother.symm.trans htrue)).elim⟩
    · exact ⟨(hnot hpair.1).trans (hnot hpair'.1).symm,
        fun htrue => (Bool.false_ne_true ((hnot hpair.1).symm.trans htrue)).elim⟩
  rcases option_rel_cases (forall₂_find hmembers fun _ _ hm => hm.1) with
    ⟨hf, hf'⟩ | ⟨m, m', hf, hf', hm⟩
  · rw [hf, hf']
    exact .none
  · rw [hf, hf']
    have halone := List.find?_some hf
    exact .some (hm.2 halone)

theorem memberValue_behind (h : o.Abbreviates Options o')
    (halike : Parallel (Option.Rel (Behind Options key)) (o.propertyValue? key) (o'.propertyValue? key)) :
    Parallel (Option.Rel (Behind Options key)) (o.memberValue? key) (o'.memberValue? key) := by
  unfold memberValue?
  rw [if_pos h.isObject, if_pos h.alsoObject]
  generalize o.propertyValue? key = x at halike
  generalize hx' : o'.propertyValue? key = x' at halike
  cases halike with
  | fault => exact .fault
  | ok hv =>
    cases hv with
    | some hv => exact .ok (.some hv)
    | none => exact .ok (option_rel_mono (h.alone hx') fun _ _ => .inl)

/-- Without a name alone under the key, the members are alike. -/
theorem memberBehind (h : o.Abbreviates Options o') (hout : o.WritesOut key) :
    Parallel (Option.Rel (Behind Options key)) (o.memberValue? key) (o'.memberValue? key) :=
  h.memberValue_behind (h.propertyValue hout)

/-- **Members.** Under every key both literals have members that mean the same, or related options. -/
theorem memberRelated (h : o.Abbreviates Options o') (key : String) :
    Parallel (Option.Rel fun v v' => v.MeansSame v' ∨ key = "options" ∧ Options v v') (o.memberValue? key)
      (o'.memberValue? key) := by
  rcases h.propertyValue_cases key with halike | ⟨⟨m, hm, halone, hnone⟩, v, huses, hfound⟩
  · exact (h.memberValue_behind halike).mono fun _ _ ho => option_rel_mono ho fun _ _ hv =>
      hv.imp_left fun hv => .inl hv.unwrap
  · have hisSome : (o.named.find? (·.isShorthand key)).isSome = true :=
      List.find?_isSome.2 ⟨m, hm, halone⟩
    obtain ⟨n, hn⟩ := Option.isSome_iff_exists.1 hisSome
    obtain ⟨part, -, rfl⟩ := List.mem_map.1 (List.mem_of_find?_eq_some hn)
    have hpart := List.find?_some hn
    unfold memberValue?
    rw [if_pos h.isObject, if_pos h.alsoObject, hnone, hfound]
    dsimp only [bind, Except.bind]
    rw [hn]
    exact .ok (.some (.inl (.inr (h.sameName hpart huses))))

theorem memberValue (h : o.Abbreviates Options o') (hkey : key ≠ "options") :
    Parallel (Option.Rel MeansSame) (o.memberValue? key) (o'.memberValue? key) :=
  (h.memberRelated key).mono fun _ _ ho => option_rel_mono ho fun _ _ hv =>
    hv.resolve_right fun hoptions => hkey hoptions.1

/-- Accessors stay what they are. -/
theorem getter (h : o.Abbreviates Options o') (key : String) :
    Parallel (Option.Rel Aside) (o.getter? key) (o'.getter? key) := by
  have hpair {member : Site} (hmember : member.hasKind .pair = true) : member.isGetter = false := by
    rw [isGetter, hasKind_ne hmember (by decide), Bool.false_and]
  have hmembers : List.Forall₂ (fun m m' => m.Aside m' ∨ m.isGetter = false ∧ m'.isGetter = false)
      o.named o'.named := by
    rw [named, named, List.forall₂_map_left_iff, List.forall₂_map_right_iff]
    refine h.members.imp fun m m' hm => ?_
    rcases hm with rfl | ⟨hm, -⟩ | ⟨⟨hp, hp'⟩, -⟩
    · exact .inl (h.inside m)
    · have halone : (o.inside m).isGetter = false := by
        rw [isGetter, hasKind_ne (s := o.inside m) hm.isAlone (by decide), Bool.false_and]
      exact .inr ⟨halone, hpair (h.exists_value hm).1.1⟩
    · exact .inr ⟨hpair hp.1, hpair hp'.1⟩
  unfold getter?
  rw [if_pos h.isObject, if_pos h.alsoObject]
  refine Parallel.firstSome hmembers fun m m' hm => ?_
  rcases hm with hm | ⟨hnot, hnot'⟩
  · have hgetter : m.isGetter = m'.isGetter := by rw [isGetter, isGetter, hm.hasKind_eq, hm.node]
    rw [← hgetter, ← memberKey_eq_of_node hm.node]
    split
    · refine .same_bind _ fun k _ => ?_
      split
      · exact .ok (.some hm)
      · exact .ok .none
    · exact .ok .none
  · rw [hnot, hnot']
    exact .ok .none

end Abbreviates
end Syntax.Site

/-! ### Options -/

namespace Syntax.Site.Abbreviates

variable {p : Project} {Options : Site → Site → Prop} {o o' : Site} {b b' : Bindings}

theorem evaluatesAlike (h : o.Abbreviates Options o') (hb : Bindings.Alike Aside b b') {key : String}
    (hkey : key ∈ optionKeys) :
    Parallel (Option.Rel fun v v' => Parallel (Outcome.Alike Eq) (p.evaluate v b) (p.evaluate v' b'))
      (o.memberValue? key) (o'.memberValue? key) :=
  (h.memberValue (ne_of_mem_of_not_mem hkey (by decide))).mono fun _ _ ho =>
    option_rel_mono ho fun _ _ hv => hv.evaluate hb

/-- **Options.** An option is the same with its names alone and with them written out. -/
theorem optionOf (h : o.Abbreviates Options o') (hb : Bindings.Alike Aside b b') :
    Parallel (Outcome.Alike Eq) (p.optionOf b o) (p.optionOf b' o') :=
  optionOf_alike fun _ hkey => h.evaluatesAlike hb hkey

theorem markedValue (h : o.Abbreviates Options o') :
    Parallel Eq (p.markedValue? o) (p.markedValue? o') := by
  unfold Project.markedValue?
  refine (h.memberValue (by decide)).bind fun v v' hv => ?_
  have hmarked : v.any Site.isTrue = v'.any Site.isTrue := by
    cases hv with
    | none => rfl
    | some hv => exact hv.hasKind_unwrap (by decide) (by decide)
  rw [← hmarked]
  split
  · exact optionValue_alike (h.evaluatesAlike .nil (by decide))
  · exact .ok rfl

end Syntax.Site.Abbreviates

/-- Elements of two lists: one aside the other, or objects with names alone in the first. -/
def Syntax.Site.ElementAlike (e e' : Site) : Prop :=
  e.unwrap.Abbreviates Never e'.unwrap ∨ Unwrapped Aside e e'

/-- Two lists with such elements. -/
structure Syntax.Site.ListAlike (s s' : Site) : Prop where
  isArray : s.unwrap.hasKind .array = true
  alsoArray : s'.unwrap.hasKind .array = true
  elements : List.Forall₂ ElementAlike s.unwrap.named s'.unwrap.named

namespace Syntax.Site

variable {p : Project} {s s' e e' : Site}

theorem ElementAlike.hasKind_eq (h : e.ElementAlike e') (k : Kind) :
    e.unwrap.hasKind k = e'.unwrap.hasKind k := by
  rcases h with h | h
  · rw [hasKind, hasKind, Node.hasKind, Node.hasKind, eq_of_beq h.isObject, eq_of_beq h.alsoObject]
  · exact Aside.hasKind_eq h k

theorem ElementAlike.optionsAt (h : e.ElementAlike e') :
    Parallel (List.Forall₂ (Outcome.Alike Eq)) (p.optionsAt e.unwrap) (p.optionsAt e'.unwrap) := by
  rcases h with h | h
  · unfold Project.optionsAt elementOption
    rw [hasKind_ne h.isObject (by decide), hasKind_ne h.alsoObject (by decide), if_pos h.isObject,
      if_pos h.alsoObject]
    exact (h.optionOf .nil).bind fun _ _ ho => .ok (.cons ho .nil)
  · exact (Aside.correspondence p).optionsAt h

theorem ElementAlike.markedAt {inside : Site → Attempt (Option Value)}
    (hinside : ∀ list list', Aside list list' → Parallel Eq (inside list) (inside list'))
    (h : e.ElementAlike e') : Parallel Eq (p.markedAt inside e.unwrap) (p.markedAt inside e'.unwrap) := by
  rcases h with h | h
  · unfold Project.markedAt
    rw [hasKind_ne h.isObject (by decide), hasKind_ne h.alsoObject (by decide), if_pos h.isObject,
      if_pos h.alsoObject]
    exact h.markedValue
  · exact (Aside.correspondence p).markedAt hinside h

/-- What is neither a name, an access nor a function stands for itself among options. -/
theorem optionsExpression_eq_unwrap (hfunction : s.unwrap.isFunction = false)
    (hname : s.unwrap.hasKind .identifier = false) (haccess : s.unwrap.hasKind .memberExpression = false) :
    p.optionsExpression s = .ok s.unwrap := by
  rw [optionsExpression, hfunction]
  simp only [Bool.false_eq_true, if_false]
  rw [hname, haccess]
  rfl

theorem optionsExpression_of_array (hs : s.unwrap.hasKind .array = true) :
    p.optionsExpression s = .ok s.unwrap :=
  optionsExpression_eq_unwrap (by rw [isFunction, hasKind_iff.1 hs]; rfl) (hasKind_ne hs (by decide))
    (hasKind_ne hs (by decide))

theorem isMethodCall_eq_false (hs : s.hasKind .callExpression = false) (name : String) :
    s.isMethodCall name = false := by rw [isMethodCall, hs, Bool.false_and]

theorem isMethodCallOn_eq_false (hs : s.hasKind .callExpression = false) (receiver name : String) :
    s.isMethodCallOn receiver name = false := by rw [isMethodCallOn, isMethodCall_eq_false hs, Bool.false_and]

/-- The idioms for calls apply to nothing else. -/
theorem idioms_of_no_call (hs : s.hasKind .callExpression = false) :
    ∀ idiom ∈ [mappedList, copiedList, tableList], idiom p s = .ok none := by
  simp only [List.forall_mem_cons, List.not_mem_nil, false_implies, implies_true, and_true]
  rw [mappedList, copiedList, tableList, isMethodCall_eq_false hs, isMethodCallOn_eq_false hs]
  exact ⟨rfl, rfl, rfl⟩

namespace ListAlike

theorem literalList (h : s.ListAlike s') : Parallel (Option.Rel (Outcome.Alike Eq))
    (Project.literalList p s.unwrap) (Project.literalList p s'.unwrap) := by
  refine literalList_alike (h.isArray.trans h.alsoArray.symm)
    (forall₂_any h.elements fun e e' he => by rw [he.hasKind_eq, he.hasKind_eq])
    (forall₂_isEmpty h.elements) fun hconstants => Parallel.mapM (forall₂_mem h.elements) fun e e' he => ?_
  rcases he with ⟨⟨hmem, -⟩, he | he⟩
  · have hobject : (s.unwrap.named.any fun e =>
        e.unwrap.hasKind .object || e.unwrap.hasKind .spreadElement) = true :=
      List.any_eq_true.2 ⟨e, hmem, by rw [he.isObject, Bool.true_or]⟩
    exact absurd hobject hconstants
  · exact (Aside.correspondence p).evaluate he .nil

theorem objectList (h : s.ListAlike s') : Parallel (Option.Rel (Outcome.Alike Eq))
    (Project.objectList p s.unwrap) (Project.objectList p s'.unwrap) := by
  refine objectList_alike (h.isArray.trans h.alsoArray.symm) ?_
  rw [listOptions_eq, listOptions_eq]
  refine Parallel.bind (P := List.Forall₂ (List.Forall₂ (Outcome.Alike Eq)))
    (Parallel.mapM (P := fun e e' =>
      Parallel (List.Forall₂ (Outcome.Alike Eq)) (p.optionsAt e) (p.optionsAt e')) ?_ fun _ _ he => he)
    fun _ _ hoptions => .ok (List.rel_flatten hoptions)
  rw [List.forall₂_map_left_iff, List.forall₂_map_right_iff]
  exact h.elements.imp fun _ _ he => he.optionsAt

/-- The idioms for lists apply alike, and those for calls do not apply. -/
theorem idioms (h : s.ListAlike s') : ∀ idiom ∈ Project.idioms,
    Parallel (Option.Rel (Outcome.Alike Eq)) (idiom p s.unwrap) (idiom p s'.unwrap) := by
  have hcalls : ∀ idiom ∈ [mappedList, copiedList, tableList],
      Parallel (Option.Rel (Outcome.Alike Eq)) (idiom p s.unwrap) (idiom p s'.unwrap) := fun idiom hidiom => by
    rw [idioms_of_no_call (hasKind_ne h.isArray (by decide)) idiom hidiom,
      idioms_of_no_call (hasKind_ne h.alsoArray (by decide)) idiom hidiom]
    exact .ok .none
  exact List.forall_mem_cons.2 ⟨h.literalList, List.forall_mem_cons.2 ⟨h.objectList, hcalls⟩⟩

/-- **Choices.** Both lists offer the same choices. -/
theorem matchOptions (h : s.ListAlike s') :
    Parallel (Outcome.Alike Eq) (p.matchOptions s) (p.matchOptions s') := by
  have hidioms : ∀ idiom ∈ Project.idioms,
      IdiomAlike p p (fun e e' => ∃ t t', e = unwrap t ∧ e' = unwrap t' ∧ t.ListAlike t') idiom :=
    fun idiom hidiom _ _ ⟨_, _, he, he', ht⟩ => he ▸ he' ▸ ht.idioms idiom hidiom
  rw [Project.matchOptions, Project.matchOptions, optionsExpression_of_array h.isArray,
    optionsExpression_of_array h.alsoArray]
  exact SettingCorrespondence.firstChoices hidioms ⟨s, s', rfl, rfl, h⟩ rfl

/-- **Markers.** Both lists have the same option marked. -/
theorem markerIn (h : s.ListAlike s') : Parallel Eq (p.markerIn? s) (p.markerIn? s') := by
  have c := Aside.correspondence p
  rw [markerIn?, markerIn?, optionsExpression_of_array h.isArray, optionsExpression_of_array h.alsoArray]
  dsimp only [bind, Except.bind]
  rw [if_pos h.isArray, if_pos h.alsoArray]
  refine (Parallel.firstSome (Q := Eq) h.elements fun _ _ he => ?_).mono fun _ _ => option_rel_eq
  refine (he.markedAt fun _ _ hlist => ?_).mono fun _ _ => option_rel_of_eq
  exact c.markedAmong (fun _ _ _ => .ok rfl) (c.parts hlist)

end ListAlike
end Syntax.Site

end SettingsHarvest
