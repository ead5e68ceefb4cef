import SettingsHarvest.Proofs.EscapedTexts
import SettingsHarvest.Proofs.Hiding
import SettingsHarvest.Proofs.LiteralAccess
import SettingsHarvest.Proofs.LookupTables
import SettingsHarvest.Proofs.NumericLiterals
import SettingsHarvest.Proofs.WrittenOut

/-! Numbers as keys of object literals.

In the source language the key `0x10` is the text `16`, as is any other literal for that number. An index
is evaluated, so it comes to this text however it is written (`WritesIndex.readsKey`), but a key is taken as
it stands. So a pair with a number for its key is found by the number, and is offered under it, exactly
where its key is spelled in decimal digits (`numeric_key_found_iff`). -/
namespace SettingsHarvest
open Syntax Project Numeral

namespace Syntax.Site

/-! ### Keys and what they denote -/

/-- The kinds of names that are keys. -/
def nameKinds : List (Option Kind) :=
  [some .propertyIdentifier, some .identifier, some .privatePropertyIdentifier]

/-- A member has a key for a text, as the language has it: a name without its escapes, the characters of a
text, or the decimal digits of a number, below 2^53. -/
inductive Denotes (member : Site) (text : String) : Prop where
  | name {key : Site} : member.keySite? = some key →
      key.kind? ∈ nameKinds → key.nameText? = some text → Denotes member text
  | text {key : Site} : member.keySite? = some key → key.hasKind .string = true →
      key.stringValue = .ok text → Denotes member text
  | number {key : Site} {n : Nat} : member.keySite? = some key → key.hasKind .number = true →
      NumericLiteral n key.text.toList → n < Value.safeIntegerBound → text = toString n →
      Denotes member text
  | shorthand : member.hasKind .shorthandPropertyIdentifier = true → member.nameText? = some text →
      Denotes member text

/-- The keys of an object literal can be read, and no two of them denote the same text. -/
structure KeysDiffer (object : Site) : Prop where
  legible : object.IsLegible
  apart : object.named.Pairwise fun m m' => ∀ text, m.Denotes text → ¬m'.Denotes text

/-- A pair of an object literal with a number for its key. -/
structure NumberedPair (object key value : Site) (n : Nat) : Prop where
  isObject : object.hasKind .object = true
  pair : ∃ member ∈ object.named, member.hasKind .pair = true ∧ member.keySite? = some key ∧
    member.pairValue? = some value
  isNumeral : key.hasKind .number = true
  writes : NumericLiteral n key.text.toList

section Keys

variable {object member key value : Site} {n : Nat} {text : String}

theorem KeysDiffer.eq {m m' : Site} (h : object.KeysDiffer) (hm : m ∈ object.named) (hm' : m' ∈ object.named)
    (htext : m.Denotes text) (htext' : m'.Denotes text) : m = m' := by
  by_contra hne
  have hsymm : Std.Symm fun m m' : Site => ∀ text, m.Denotes text → ¬m'.Denotes text :=
    ⟨fun m m' h text hm' hm => h text hm hm'⟩
  exact h.apart.forall hm hm' hne text htext htext'

/-- A name that is digits has no escapes. -/
theorem nameText_digits {name : Site} (h : name.text = toString n) : name.nameText? = some (toString n) := by
  have hdecode : Text.decode (Nat.toDigits 10 n) = .ok (Nat.toDigits 10 n) := by
    refine Text.decode_plain fun c hc => ?_
    have hdigit := Nat.isDigit_of_mem_toDigits (by decide) (by decide) hc
    refine ⟨?_, ?_, ?_⟩ <;> rintro rfl <;> exact absurd hdigit (by decide)
  rw [nameText?, h, Nat.toString_eq_repr, Nat.repr, String.toList_ofList, hdecode]
  rfl

/-- What is spelled with the digits of a number denotes it. -/
theorem denotes_of_memberKey (hn : n < Value.safeIntegerBound)
    (h : member.memberKey? = .ok (some (toString n))) : member.Denotes (toString n) := by
  unfold memberKey? at h
  split at h
  · cases h
  · next key hkey =>
    have hname (hkind : key.kind? ∈ nameKinds) (htext : key.text = toString n) : member.Denotes (toString n) :=
      .name hkey hkind (nameText_digits htext)
    split at h
    · next hkind => exact hname (by rw [hkind]; decide) (Option.some.inj (Except.ok.inj h))
    · next hkind => exact hname (by rw [hkind]; decide) (Option.some.inj (Except.ok.inj h))
    · next hkind => exact hname (by rw [hkind]; decide) (Option.some.inj (Except.ok.inj h))
    · next hkind =>
      have htext : key.text = toString n := Option.some.inj (Except.ok.inj h)
      refine .number hkey (hasKind_iff.2 hkind) ?_ hn rfl
      rw [htext, Nat.toString_eq_repr, Nat.toList_repr]
      exact numericLiteral_digits n
    · next hkind =>
      obtain ⟨text, htext, hsome⟩ := exists_of_map h
      cases hsome
      exact .text hkey (hasKind_iff.2 hkind) htext
    · cases h

theorem denotes_of_isShorthand (h : member.isShorthand (toString n) = true) : member.Denotes (toString n) := by
  obtain ⟨hkind, htext⟩ := Bool.and_eq_true_iff.1 h
  exact .shorthand hkind (nameText_digits (eq_of_beq htext))

/-- A numeral is taken for a key as it stands. -/
theorem memberKey_of_numeral (hkey : member.keySite? = some key) (hnumeral : key.hasKind .number = true) :
    member.memberKey? = .ok (some key.text) := by
  rw [keySite?] at hkey
  rw [memberKey?, hkey]
  dsimp only
  rw [hasKind_iff.1 hnumeral]

/-- Where all keys can be read, the pairs are those with a key. -/
theorem IsLegible.exists_pairs (h : object.IsLegible) :
    ∃ pairs, object.pairs = .ok pairs ∧ pairs.map (·.1) = object.named.filterMap pairKey? := by
  have hread : (object.named.filter (·.hasKind .pair)).mapM
      (fun m => do return (← m.memberKey?).map fun key => (key, m)) =
        Except.ok ((object.named.filter (·.hasKind .pair)).map fun m =>
          m.pairKey?.map fun key => (key, m)) := by
    refine mapM_eq_ok fun m hm => ?_
    obtain ⟨hnamed, hpair⟩ := List.mem_filter.1 hm
    obtain ⟨key, hkey⟩ := h m hnamed hpair
    rw [pairKey?, if_pos hpair, hkey]
    rfl
  refine ⟨_, by rw [Site.pairs, hread]; rfl, ?_⟩
  rw [List.filterMap_map, List.map_filterMap, List.filterMap_filter]
  refine congrArg (List.filterMap · object.named) (funext fun m => ?_)
  by_cases hpair : m.hasKind .pair = true
  · rw [if_pos hpair]
    dsimp only [Function.comp_apply, id]
    cases m.pairKey? <;> rfl
  · rw [if_neg hpair, pairKey?, if_neg hpair]

/-! ### Pairs of numbers -/

namespace NumberedPair

variable (h : NumberedPair object key value n) (hn : n < Value.safeIntegerBound)

include h hn

theorem exists_member : ∃ member ∈ object.named, member.hasKind .pair = true ∧
    member.memberKey? = .ok (some key.text) ∧ member.pairValue? = some value ∧
    member.Denotes (toString n) := by
  obtain ⟨member, hmem, hpair, hkey, hvalue⟩ := h.pair
  exact ⟨member, hmem, hpair, memberKey_of_numeral hkey h.isNumeral, hvalue,
    .number hkey h.isNumeral h.writes hn rfl⟩

/-- **Members by number.** Behind the digits of the number stands the pair if its key is spelled so, and
nothing else does. -/
theorem memberValue_eq (hkeys : object.KeysDiffer) :
    object.memberValue? (toString n) = .ok (if key.text = toString n then some value else none) := by
  obtain ⟨member, hmem, hpair, hspelled, hvalue, hdenotes⟩ := h.exists_member hn
  have honly {m : Site} (hm : m ∈ object.named) (hm' : m.Denotes (toString n)) : m = member :=
    hkeys.eq hm hmem hm' hdenotes
  have hpairs {m : Site} (hm : m ∈ object.named) (hkey : m.memberKey? = .ok (some (toString n))) :
      m = member ∧ key.text = toString n := by
    obtain rfl := honly hm (denotes_of_memberKey hn hkey)
    exact ⟨rfl, Option.some.inj (Except.ok.inj (hspelled.symm.trans hkey))⟩
  obtain ⟨found, hfound⟩ := hkeys.legible.exists_propertyValue h.isObject (toString n)
  rw [memberValue?, hfound]
  cases found with
  | some v =>
    obtain ⟨-, m, hm, -, hkey, hv⟩ := exists_pair_of_propertyValue hfound
    obtain ⟨rfl, hdigits⟩ := hpairs hm hkey
    cases hvalue.symm.trans hv
    rw [if_pos hdigits]
    rfl
  | none =>
    have hother : key.text ≠ toString n := by
      intro hdigits
      rw [propertyValue_eq h.isObject] at hfound
      have hread := forall_of_firstSome hfound member (List.mem_filter.2 ⟨hmem, hpair⟩)
      rw [hspelled, hdigits] at hread
      dsimp only [bind, Except.bind] at hread
      rw [if_pos (beq_self_eq_true _)] at hread
      cases hvalue.symm.trans (pure_eq_ok.1 hread)
    have hnone : object.named.find? (·.isShorthand (toString n)) = none := by
      refine List.find?_eq_none.2 fun m hm halone => ?_
      obtain rfl := honly hm (denotes_of_isShorthand halone)
      cases (hasKind_ne hpair (by decide)).symm.trans (Bool.and_eq_true_iff.1 halone).1
    rw [if_neg hother]
    dsimp only [bind, Except.bind]
    rw [if_pos h.isObject, hnone]
    rfl

/-- **Keys of numbers.** The digits of the number are among the keys if the pair is spelled so. -/
theorem digits_mem_iff (hkeys : object.KeysDiffer) :
    toString n ∈ object.named.filterMap pairKey? ↔ key.text = toString n := by
  obtain ⟨member, hmem, hpair, hspelled, -, hdenotes⟩ := h.exists_member hn
  rw [List.mem_filterMap]
  constructor
  · rintro ⟨m, hm, hkey⟩
    obtain ⟨-, hkey⟩ := pairKey_eq_some.1 hkey
    obtain rfl := hkeys.eq hm hmem (denotes_of_memberKey hn hkey) hdenotes
    exact Option.some.inj (Except.ok.inj (hspelled.symm.trans hkey))
  · intro hdigits
    exact ⟨member, hmem, pairKey_eq_some.2 ⟨hpair, hdigits ▸ hspelled⟩⟩

end NumberedPair
end Keys
end Syntax.Site

/-! ### Indices -/

section Indices

variable {p : Project} {b : Bindings} {s base index : Site} {n : Nat}

/-- An index that is written as a number: with a literal for it, or as a text of its digits. -/
inductive WritesIndex (index : Site) (n : Nat) : Prop where
  | numeral : index.unwrap.hasKind .number = true → NumericLiteral n index.unwrap.text.toList →
      Brief n index.unwrap.text.toList → WritesIndex index n
  | digits : index.unwrap.isStringLiteral = true → index.unwrap.stringValue = .ok (toString n) →
      WritesIndex index n

/-- An access `base[index]`. -/
structure Subscripts (s base index : Site) : Prop where
  isElement : s.unwrap.hasKind .subscriptExpression = true
  hasBase : s.unwrap.part? .object = some base
  hasIndex : s.unwrap.part? .index = some index

theorem keyText_natCast (hn : n < Value.safeIntegerBound) :
    (Value.integer n).keyText = .ok (toString n) :=
  Value.keyText_eq_ok.2 ⟨decide_eq_true (length_toDigits_le hn), rfl⟩

/-- **Indices.** However the index is written, the key that is read has the digits of the number. -/
theorem WritesIndex.readsKey (h : WritesIndex index n) (hn : n < Value.safeIntegerBound)
    (hs : Subscripts s base index) : p.ReadsKey b s base (toString n) := by
  have hdepth : evaluationDepth - 1 = 31 + 1 := rfl
  cases h with
  | numeral hkind hwrites hbrief =>
    have hvalue : p.evaluateWithin (evaluationDepth - 1) index b = .ok (.ok (.integer n)) := by
      have hparse := parse_numericLiteral hwrites hbrief hn
      rw [String.ofList_toList] at hparse
      rw [hdepth, evaluateWithin, valueOf, Site.kind_eq_of_hasKind hkind]
      dsimp only
      rw [numeralValue, hparse]
      rfl
    exact .number hs.isElement hs.hasBase hs.hasIndex hvalue rfl (keyText_natCast hn)
  | digits hliteral htext =>
    refine .text hs.isElement hs.hasBase hs.hasIndex ?_
    rw [hdepth, evaluateWithin, valueOf_stringLiteral hliteral htext]

end Indices

/-- **Numbers as keys.** A number that is written as an index, with a literal for it or as a text of its
digits, is looked up by its decimal digits. Where the keys of an object literal denote different texts, such
an access comes to the pair whose key is a literal for the number exactly if this key is spelled in decimal
digits; elsewhere there is no entry. The pair is offered under the digits in the same case. -/
theorem numeric_key_found_iff {object key value : Site} {n : Nat} (hpair : object.NumberedPair key value n)
    (hn : n < Value.safeIntegerBound) (hkeys : object.KeysDiffer) :
    (∀ (p : Project) (b : Bindings) (s base index : Site), Subscripts s base index → WritesIndex index n →
      p.ReadsKey b s base (toString n)) ∧
    (∀ (p : Project) (b : Bindings) (s base : Site), p.ReadsKey b s base (toString n) →
      p.container? b base.unwrap = .ok (some object) →
        p.evaluate s b = entryValue p (p.evaluateWithin (evaluationDepth - 1)) base (toString n)
          (if key.text = toString n then some value else none)) ∧
    ∀ (p : Project) (receiver keys argument : Site), p.KeysOf object receiver keys argument →
      ∃ elements, p.mapElements (some receiver) = .ok (some elements) ∧
        (Element.key (toString n) ∈ elements ↔ key.text = toString n) := by
  refine ⟨fun p b s base index hs hindex => hindex.readsKey hn hs, fun p b s base hreads hcontainer => ?_,
    fun p receiver keys argument h => ?_⟩
  · rw [hreads.evaluate_of_container hcontainer hpair.isObject, hpair.memberValue_eq hn hkeys]
    rfl
  · obtain ⟨pairs, hpairs, hall⟩ := hkeys.legible.exists_pairs
    refine ⟨_, h.mapElements_pairs hpairs, ?_⟩
    rw [← hpair.digits_mem_iff hn hkeys, ← hall]
    simp

/-! ### Two numbers by hand -/

/-- A pair whose key is a numeral that is read as a number. -/
structure ReadsNumeral (member key : Site) (n : Nat) : Prop where
  isPair : member.hasKind .pair = true
  hasKey : member.keySite? = some key
  isNumeral : key.hasKind .number = true
  parses : Numeral.parse key.text = .ok (.integer n)
  short : key.text.toList.length ≤ longestNumeral

namespace ReadsNumeral

variable {member key : Site} {n : Nat}

/-- Such a pair denotes the number and nothing else. -/
theorem denotes_eq (h : ReadsNumeral member key n) {text : String} (htext : member.Denotes text) :
    text = toString n := by
  cases htext with
  | name hkey hkind =>
    cases h.hasKey.symm.trans hkey
    rw [Site.hasKind_iff.1 h.isNumeral] at hkind
    exact absurd hkind (by decide)
  | text hkey hkind =>
    cases h.hasKey.symm.trans hkey
    cases (Site.hasKind_ne h.isNumeral (by decide)).symm.trans hkind
  | number hkey _ hwrites hm heq =>
    cases h.hasKey.symm.trans hkey
    have hread := parse_numericLiteral hwrites (brief_of_length h.short) hm
    rw [String.ofList_toList, h.parses] at hread
    cases hread
    exact heq
  | shorthand hkind => cases (Site.hasKind_ne h.isPair (by decide)).symm.trans hkind

/-- Two pairs of different numbers have different keys. -/
theorem keysDiffer {object other key' : Site} {n' : Nat} (h : ReadsNumeral member key n)
    (h' : ReadsNumeral other key' n') (hne : n ≠ n') (hnamed : object.named = [member, other]) :
    object.KeysDiffer where
  legible := by
    rw [Site.IsLegible, hnamed]
    simp [Site.memberKey_of_numeral h.hasKey h.isNumeral, Site.memberKey_of_numeral h'.hasKey h'.isNumeral]
  apart := by
    rw [hnamed, List.pairwise_pair]
    intro text htext htext'
    exact hne (toString_injective ((h.denotes_eq htext).symm.trans (h'.denotes_eq htext')))

end ReadsNumeral

/-- The pair `key: value` of a numeral and a text. -/
def numeralPair (key value : String) : Node :=
  .tree .pair none
    [.leaf .number (some .key) " " key, .token none "" ":", .leaf .string (some .value) " " value]

/-- The access `{ key: "a", 8: "b" }[index]`, probed. -/
def numeralProbe (key index : String) : Node :=
  .tree .program none
    [probeNode (.tree .subscriptExpression none
      [.tree .object (some .object)
         [.token none "" "\x7b", numeralPair key "\"a\"", .token none "" ",", numeralPair "8" "\"b\"",
          .token none " " "\x7d"],
       .token none "" "[", .leaf .number (some .index) "" index, .token none "" "]"])]

theorem numericLiteral_sixteen : NumericLiteral 16 "16".toList := numericLiteral_digits 16

theorem numericLiteral_hex : NumericLiteral 16 "0x10".toList :=
  .integer (@IntegerLiteral.based 16 'x' 16 ['1', '0'] ['1', '0'] [] (by decide) ⟨0, by decide⟩
    (.next '1' (.last '0')) (by decide))

/-- What stands in such a program, if both texts are literals for 16. -/
theorem exists_numeralProbe {written asked : String} (hwritten : NumericLiteral 16 written.toList)
    (hasked : NumericLiteral 16 asked.toList) (hparse : Numeral.parse written = .ok (.integer 16))
    (hshort : written.toList.length ≤ longestNumeral) (hshort' : asked.toList.length ≤ longestNumeral) :
    ∃ s base index object key value, firstArgument? (numeralProbe written asked) = some s ∧
      object.NumberedPair key value 16 ∧ object.KeysDiffer ∧ key.text = written ∧ Subscripts s base index ∧
      WritesIndex index 16 ∧ bareProject.container? [] base.unwrap = .ok (some object) ∧
      object.keys = .ok [written, "8"] ∧
      bareProject.evaluateWithin (evaluationDepth - 1) value [] = .ok (.ok (.text "a")) := by
  obtain ⟨s, base, index, object, key, value, first, last, eight, hs, hobject, hnamed, hfirst, hkey, hvalue,
      hnumeral, htext, hlast, height, hnumeral', htext', hsubscripts, hindex, hindexText, hcontainer, hall,
      hliteral, hquoted⟩ :
      ∃ s base index object key value first last eight, firstArgument? (numeralProbe written asked) = some s ∧
        object.hasKind .object = true ∧ object.named = [first, last] ∧
        first.hasKind .pair = true ∧ first.keySite? = some key ∧ first.pairValue? = some value ∧
        key.hasKind .number = true ∧ key.text = written ∧
        last.hasKind .pair = true ∧ last.keySite? = some eight ∧ eight.hasKind .number = true ∧
        eight.text = "8" ∧ Subscripts s base index ∧ index.unwrap.hasKind .number = true ∧
        index.unwrap.text = asked ∧ bareProject.container? [] base.unwrap = .ok (some object) ∧
        object.keys = .ok [written, "8"] ∧ value.unwrap.isStringLiteral = true ∧ value.unwrap.text = "\"a\"" :=
    ⟨_, _, _, _, _, _, _, _, _, rfl, rfl, rfl, rfl, rfl, rfl, rfl, rfl, rfl, rfl, rfl, rfl, ⟨rfl, rfl, rfl⟩,
      rfl, rfl, rfl, rfl, rfl, rfl⟩
  subst htext hindexText
  have hpair : object.NumberedPair key value 16 :=
    ⟨hobject, ⟨first, by simp [hnamed], hfirst, hkey, hvalue⟩, hnumeral, hwritten⟩
  have hreads : ReadsNumeral first key 16 := ⟨hfirst, hkey, hnumeral, hparse, hshort⟩
  have hreads' : ReadsNumeral last eight 8 :=
    ⟨hlast, height, hnumeral', by rw [htext']; rfl, by rw [htext']; decide⟩
  have hkeys := hreads.keysDiffer hreads' (by decide) hnamed
  have hwrites : WritesIndex index 16 := .numeral hindex hasked (brief_of_length hshort')
  have ha : value.unwrap.stringValue = .ok "a" := by
    rw [Site.stringValue, Site.literalBody, hquoted]
    rfl
  refine ⟨s, base, index, object, key, value, hs, hpair, hkeys, rfl, hsubscripts, hwrites, hcontainer, hall, ?_⟩
  rw [show evaluationDepth - 1 = 31 + 1 from rfl, evaluateWithin, valueOf_stringLiteral hliteral ha]

/-- A key in decimal digits is found, whatever the index looks like. -/
theorem decimal_key_found :
    parse .plain "\nprobe(\x7b 16: \"a\", 8: \"b\" \x7d[0x10]);" = numeralProbe "16" "0x10" ∧
    ∃ s base index object key value, firstArgument? (numeralProbe "16" "0x10") = some s ∧
      object.NumberedPair key value 16 ∧ object.KeysDiffer ∧ Subscripts s base index ∧ WritesIndex index 16 ∧
      bareProject.container? [] base.unwrap = .ok (some object) ∧
      bareProject.evaluate s [] = .ok (.ok (.text "a")) := by
  obtain ⟨s, base, index, object, key, value, hs, hpair, hkeys, htext, hsubscripts, hindex, hcontainer, -,
      ha⟩ :=
    exists_numeralProbe numericLiteral_sixteen numericLiteral_hex rfl (by decide) (by decide)
  obtain ⟨hreads, hfound, -⟩ := numeric_key_found_iff hpair (by decide) hkeys
  have heq := hfound bareProject [] s base (hreads _ _ _ _ _ hsubscripts hindex) hcontainer
  rw [htext, if_pos (by decide)] at heq
  exact ⟨by decide +kernel, s, base, index, object, key, value, hs, hpair, hkeys, hsubscripts, hindex,
    hcontainer, heq.trans ha⟩

/-- A key in hexadecimal digits is not found by its number, and is offered as it is spelled. -/
theorem hex_key_not_found :
    parse .plain "\nprobe(\x7b 0x10: \"a\", 8: \"b\" \x7d[16]);" = numeralProbe "0x10" "16" ∧
    ∃ s base index object key value, firstArgument? (numeralProbe "0x10" "16") = some s ∧
      object.NumberedPair key value 16 ∧ object.KeysDiffer ∧ Subscripts s base index ∧ WritesIndex index 16 ∧
      bareProject.container? [] base.unwrap = .ok (some object) ∧
      bareProject.evaluate s [] =
        .ok (.error (.unresolvedMember "\x7b 0x10: \"a\", 8: \"b\" \x7d" "16")) ∧
      object.keys = .ok ["0x10", "8"] := by
  obtain ⟨s, base, index, object, key, value, hs, hpair, hkeys, -, hsubscripts, hindex, hcontainer, hall,
      -⟩ :=
    exists_numeralProbe numericLiteral_hex numericLiteral_sixteen rfl (by decide) (by decide)
  have hfails : (firstArgument? (numeralProbe "0x10" "16")).map (bareProject.evaluate · []) =
      some (.ok (.error (.unresolvedMember "\x7b 0x10: \"a\", 8: \"b\" \x7d" "16"))) := rfl
  rw [hs] at hfails
  exact ⟨by decide +kernel, s, base, index, object, key, value, hs, hpair, hkeys, hsubscripts, hindex,
    hcontainer, Option.some.inj hfails, hall⟩

end SettingsHarvest
