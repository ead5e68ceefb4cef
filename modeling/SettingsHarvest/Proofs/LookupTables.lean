import SettingsHarvest.Proofs.Choices
import SettingsHarvest.Proofs.Leaves
import SettingsHarvest.Proofs.Parallel
import SettingsHarvest.Proofs.References

/-! Choices from lookup tables.

The entries of a table are quoted texts, or calls of a helper that stand for a text. A `.map` over the
keys of a table reads the table by key, and evaluation knows nothing of helpers: of an entry that is a
call it makes nothing. So the choices are the texts of all entries only where every entry is quoted, or
none is (`table_choices_iff`); the idiom of tables is not asked about any other, because the one for `.map`
has found choices before it. -/
namespace SettingsHarvest
open Syntax

/-! ### Entries -/

/-- What an entry of a lookup table says. -/
structure TableEntry where
  key : String
  text : String
  /-- Whether the text is written out, and not stood for by a call. -/
  quoted : Bool

namespace TableEntry

/-- The text of an entry where evaluation can read it. -/
def readable? (e : TableEntry) : Option String := if e.quoted then some e.text else none

/-- What evaluation reads behind a key: the first entry there counts. -/
def under (entries : List TableEntry) (key : String) : Option String :=
  (entries.find? (·.key == key)).bind readable?

/-- The texts that are offered: those read key by key, or all of them if there are none. -/
def offered (entries : List TableEntry) : List String :=
  let read := entries.filterMap fun e => under entries e.key
  if read.isEmpty then entries.map (·.text) else read

end TableEntry

namespace Project

variable {p : Project} {table pair : Site} {e : TableEntry} {entries : List TableEntry}

/-- A family of lookup tables gives a call of its helper with a name a text: its template, filled with
the name and its two constants. -/
structure Gives (p : Project) (table : Site) (l : LookupTable) (helper name text : String) : Prop where
  helper : l.helper = .ok helper
  filled : ∃ base revision template baseText revisionText,
    l.baseConstant = .ok base ∧ p.textConstant? table base = .ok (some baseText) ∧
    l.revisionConstant = .ok revision ∧ p.textConstant? table revision = .ok (some revisionText) ∧
    l.template = .ok template ∧
    Text.fill template [("base", baseText), ("revision", revisionText), ("name", name)] = .ok text

/-- A family of lookup tables leaves a call to others: it has another helper, or one of its constants
is no text of the table's file. -/
inductive LeavesAlone (p : Project) (table : Site) (l : LookupTable) (helper : String) : Prop where
  | otherHelper {own : String} : l.helper = .ok own → own ≠ helper → LeavesAlone p table l helper
  | noConstants {base revision : String} {baseText revisionText : Option String} :
    l.helper = .ok helper →
    l.baseConstant = .ok base → p.textConstant? table base = .ok baseText →
    l.revisionConstant = .ok revision → p.textConstant? table revision = .ok revisionText →
    baseText = none ∨ revisionText = none → LeavesAlone p table l helper

/-- A call of a helper with a name stands for the text that the first family to know it gives. -/
def StandsFor (p : Project) (table : Site) (helper name text : String) : Prop :=
  ∃ before l after, p.lookups = before ++ l :: after ∧
    (∀ other ∈ before, p.LeavesAlone table other helper) ∧ p.Gives table l helper name text

/-- A pair of a key and a value, wrappers taken off. -/
structure IsPair (pair : Site) (key : String) (value : Site) : Prop where
  isPair : pair.hasKind .pair = true
  key : pair.memberKey? = .ok (some key)
  value : pair.pairValue?.map Site.unwrap = some value

/-- A pair of a table, with what it says. -/
inductive Enters (p : Project) (table pair : Site) : TableEntry → Prop where
  | quoted {value : Site} {key text : String} : IsPair pair key value →
    value.isStringLiteral = true → value.stringValue = .ok text → Enters p table pair ⟨key, text, true⟩
  | called {value argument : Site} {key helper name text : String} : IsPair pair key value →
    value.hasKind .callExpression = true → value.callee?.map (·.text) = some helper →
    value.callArguments = [argument] → argument.unwrap.isStringLiteral = true →
    argument.unwrap.stringValue = .ok name → p.StandsFor table helper name text →
    Enters p table pair ⟨key, text, false⟩

/-- A table of nothing but such pairs. -/
def Tabulates (p : Project) (table : Site) (entries : List TableEntry) : Prop :=
  List.Forall₂ (p.Enters table) table.named entries

theorem Enters.isPair (h : p.Enters table pair e) : ∃ value, IsPair pair e.key value := by
  cases h with
  | quoted hpair => exact ⟨_, hpair⟩
  | called hpair => exact ⟨_, hpair⟩

theorem Enters.key (h : p.Enters table pair e) : pair.memberKey? = .ok (some e.key) := by
  obtain ⟨value, hpair⟩ := h.isPair
  exact hpair.key

theorem Tabulates.pairs_eq (h : p.Tabulates table entries) :
    table.named.filter (·.hasKind .pair) = table.named := by
  rw [List.filter_eq_self]
  intro pair hpair
  obtain ⟨e, -, he⟩ := exists_of_mem_forall₂ h hpair
  obtain ⟨value, hvalue⟩ := he.isPair
  exact hvalue.isPair

/-! ### The texts of a table -/

theorem firstSome_append {α β : Type} {f : α → Attempt (Option β)} {before after : List α} {a : α}
    {b : β} (hbefore : ∀ other ∈ before, f other = .ok none) (ha : f a = .ok (some b)) :
    firstSome f (before ++ a :: after) = .ok (some b) := by
  induction before with
  | nil => simp [firstSome, ha]
  | cons other rest ih =>
    obtain ⟨hother, hrest⟩ := List.forall_mem_cons.1 hbefore
    rw [List.cons_append, firstSome, hother]
    exact ih hrest

theorem helperText_eq {call argument : Site} {helper name text : String}
    (hhelper : call.callee?.map (·.text) = some helper) (hname : argument.stringValue = .ok name)
    (h : p.StandsFor table helper name text) :
    p.helperText table call argument = .ok (some text) := by
  obtain ⟨before, l, after, hlookups, hbefore, hgives⟩ := h
  rw [helperText, hlookups]
  refine firstSome_append (fun other hother => ?_) ?_
  · cases hbefore other hother with
    | otherHelper hown hne =>
      rw [hown, hhelper]
      dsimp only [bind, Except.bind]
      rw [if_pos (by simpa using hne.symm)]
      rfl
    | @noConstants _ _ baseText revisionText hown hbase hbaseText hrevision hrevisionText hnone =>
      rw [hown, hhelper]
      dsimp only [bind, Except.bind]
      rw [if_neg (by simp), hbase]
      dsimp only
      rw [hbaseText, hrevision]
      dsimp only
      rw [hrevisionText]
      rcases hnone with rfl | rfl
      · rfl
      · cases baseText <;> rfl
  · obtain ⟨base, revision, template, baseText, revisionText, hbase, hbaseText, hrevision,
      hrevisionText, htemplate, hfill⟩ := hgives.filled
    rw [hgives.helper, hhelper]
    dsimp only [bind, Except.bind]
    rw [if_neg (by simp), hbase]
    dsimp only
    rw [hbaseText, hrevision]
    dsimp only
    rw [hrevisionText]
    dsimp only
    rw [hname]
    dsimp only
    rw [htemplate]
    dsimp only
    rw [hfill]
    rfl

theorem isStringLiteral_not_call {s : Site} (h : s.hasKind .callExpression = true) :
    s.isStringLiteral = false := by
  simp [Site.isStringLiteral, Site.hasKind_ne h (show Kind.callExpression ≠ .string by decide),
    Site.hasKind_ne h (show Kind.callExpression ≠ .templateString by decide)]

/-- Every entry stands for its text. -/
theorem Enters.entryText_eq (h : p.Enters table pair e) :
    ∃ value, pair.pairValue?.map Site.unwrap = some value ∧
      p.entryText table value = .ok (some e.text) := by
  cases h with
  | @quoted value key text hpair hliteral htext =>
    refine ⟨value, hpair.value, ?_⟩
    rw [entryText, if_pos hliteral, htext]
    rfl
  | @called value argument key helper name text hpair hcall hhelper harguments hliteral hname hstands =>
    refine ⟨value, hpair.value, ?_⟩
    have hfirst : value.firstArgument?.map Site.unwrap = some argument.unwrap := by
      rw [Site.firstArgument?, harguments]
      rfl
    rw [entryText, isStringLiteral_not_call hcall, if_neg (by decide), if_pos hcall, hfirst]
    dsimp only
    rw [if_pos hliteral]
    exact helperText_eq hhelper hname hstands

theorem entryTexts_eq {pairs : List Site} (h : List.Forall₂ (p.Enters table) pairs entries) :
    p.entryTexts table pairs = .ok (entries.map (·.text)) := by
  induction h with
  | nil => rfl
  | cons hpair _ ih =>
    obtain ⟨value, hvalue, htext⟩ := hpair.entryText_eq
    obtain ⟨v, hv, rfl⟩ := Option.map_eq_some_iff.1 hvalue
    rw [entryTexts, hpair.key, hv]
    dsimp only [bind, Except.bind]
    rw [htext, ih]
    rfl

/-- The idiom of tables reads all entries. -/
theorem Tabulates.tableTexts_eq (h : p.Tabulates table entries) :
    p.tableTexts table = .ok (entries.map (·.text)) := by
  rw [tableTexts, h.pairs_eq]
  exact entryTexts_eq h

/-! ### A table read by key -/

theorem exists_keys {pairs : List Site} (h : List.Forall₂ (p.Enters table) pairs entries) :
    ∃ found, pairs.mapM (fun pair => do return (← pair.memberKey?).map fun key => (key, pair)) =
      Except.ok found ∧ (found.filterMap id).map (·.1) = entries.map (·.key) := by
  induction h with
  | nil => exact ⟨[], rfl, rfl⟩
  | @cons pair e rest others hpair _ ih =>
    obtain ⟨found, hfound, hkeys⟩ := ih
    refine ⟨some (e.key, pair) :: found, ?_, ?_⟩
    · rw [List.mapM_cons, hpair.key, hfound]
      rfl
    · exact congrArg (e.key :: ·) hkeys

theorem Tabulates.keys_eq (h : p.Tabulates table entries) :
    ∃ pairs, table.pairs = .ok pairs ∧ pairs.map (·.1) = entries.map (·.key) := by
  obtain ⟨found, hfound, hkeys⟩ := exists_keys h
  refine ⟨found.filterMap id, ?_, hkeys⟩
  rw [Site.pairs, h.pairs_eq, hfound]
  rfl

theorem exists_firstValue {pairs : List Site} (h : List.Forall₂ (p.Enters table) pairs entries)
    {key : String} (he : entries.find? (·.key == key) = some e) :
    ∃ pair value, p.Enters table pair e ∧ pair.pairValue? = some value ∧
      firstSome (fun pair => do
        if (← pair.memberKey?) == some key then return pair.pairValue? else return none) pairs =
          .ok (some value) := by
  induction h with
  | nil => cases he
  | @cons pair e' rest others hpair _ ih =>
    rw [List.find?_cons] at he
    split at he
    · next hsame =>
      cases he
      obtain ⟨_, hisPair⟩ := hpair.isPair
      obtain ⟨value, hvalue, -⟩ := Option.map_eq_some_iff.1 hisPair.value
      refine ⟨pair, value, hpair, hvalue, ?_⟩
      rw [firstSome, hpair.key, eq_of_beq hsame]
      simp [bind, Except.bind, pure, Except.pure, hvalue]
    · next hother =>
      obtain ⟨pair', value, hpair', hvalue, hfound⟩ := ih he
      refine ⟨pair', value, hpair', hvalue, ?_⟩
      have hne : (some e'.key == some key) = false := hother
      rw [firstSome, hpair.key]
      simp only [bind, Except.bind, hne]
      exact hfound

/-- Behind a key stands the value of the first entry that has it. -/
theorem Tabulates.memberValue_eq (h : p.Tabulates table entries)
    (hobject : table.hasKind .object = true) {key : String}
    (he : entries.find? (·.key == key) = some e) :
    ∃ pair value, p.Enters table pair e ∧ pair.pairValue? = some value ∧
      table.memberValue? key = .ok (some value) := by
  obtain ⟨pair, value, hpair, hvalue, hfound⟩ := exists_firstValue h he
  refine ⟨pair, value, hpair, hvalue, ?_⟩
  rw [Site.memberValue?, Site.propertyValue?, if_pos hobject, h.pairs_eq, hfound]
  rfl

theorem valueOf_stringLiteral {recur : Evaluator} {b : Bindings} {s : Site} {text : String}
    (h : s.isStringLiteral = true) (htext : s.stringValue = .ok text) :
    p.valueOf recur b s = .ok (.ok (.text text)) := by
  rcases Bool.or_eq_true_iff.1 h with hstring | htemplate
  · rw [valueOf, Site.kind_eq_of_hasKind hstring]
    dsimp only [bind, Except.bind]
    rw [htext]
    rfl
  · obtain ⟨htemplate, hplain⟩ := Bool.and_eq_true_iff.1 htemplate
    rw [valueOf, Site.kind_eq_of_hasKind htemplate]
    dsimp only [bind, Except.bind]
    rw [if_neg (by simpa using hplain), htext]
    rfl

/-- Evaluation reads a quoted entry, and makes nothing of a call. -/
theorem Enters.evaluateWithin_eq (h : p.Enters table pair e) {value : Site}
    (hvalue : pair.pairValue? = some value) (depth : Nat) :
    ∃ outcome, p.evaluateWithin (depth + 1) value [] = .ok outcome ∧
      valueOf? outcome = e.readable?.map .text := by
  cases h with
  | @quoted literal key text hpair hliteral htext =>
    have hunwrap : value.unwrap = literal := by simpa [hvalue] using hpair.value
    rw [evaluateWithin, hunwrap]
    exact ⟨.ok (.text text), valueOf_stringLiteral hliteral htext, rfl⟩
  | @called call argument key helper name text hpair hcall =>
    have hunwrap : value.unwrap = call := by simpa [hvalue] using hpair.value
    rw [evaluateWithin, hunwrap]
    refine ⟨.error (.notAConstantForm call.typeName), ?_, rfl⟩
    rw [valueOf, Site.kind_eq_of_hasKind hcall]
    rfl

/-! ### The options -/

/-- A site that is a plain name, wrappers taken off. -/
def IsName (s : Site) (name : String) : Prop :=
  s.unwrap.hasKind .identifier = true ∧ s.unwrap.text = name

/-- The keys of a table: a call of `Object.keys`, or a name for one. -/
structure KeysOf (p : Project) (table receiver keys argument : Site) : Prop where
  source : receiver.unwrap = keys ∨
    receiver.unwrap.hasKind .identifier = true ∧ p.denoted? receiver = .ok (some keys)
  isKeys : keys.isMethodCallOn "Object" "keys" = true
  isArgument : keys.firstArgument? = some argument
  denotes : p.object? argument = .ok (some table)

/-- A function that answers `{ label: n, value: base[n] }` for its parameter `n`. -/
structure ReadsTable (p : Project) (table callback body label value index base : Site) (n : String) :
    Prop where
  isFunction : callback.isFunction = true
  parameter : callback.parameterNames? = some [n]
  answers : callbackObject? callback = some body
  hasLabel : body.memberValue? "label" = .ok (some label)
  labelName : IsName label n
  hasValue : body.memberValue? "value" = .ok (some value)
  isElement : value.unwrap.hasKind .subscriptExpression = true
  hasIndex : value.unwrap.part? .index = some index
  indexName : IsName index n
  hasBase : value.unwrap.part? .object = some base
  unbound : base.unwrap.hasKind .identifier = true → base.unwrap.text ≠ n
  denotes : p.object? base = .ok (some table)

/-- Options of the form `keys.map(n => ({ label: n, value: table[n] }))`. -/
structure MapsTable (p : Project) (options table : Site) : Prop where
  isMap : options.unwrap.isMethodCall "map" = true
  receiver : ∃ receiver keys argument, options.unwrap.receiver? = some receiver ∧
    p.KeysOf table receiver keys argument
  callback : ∃ callback body label value index base n,
    options.unwrap.firstArgument?.map Site.unwrap = some callback ∧
      p.ReadsTable table callback body label value index base n

theorem KeysOf.isCall {receiver keys argument : Site} (h : p.KeysOf table receiver keys argument) :
    keys.hasKind .callExpression = true :=
  (Bool.and_eq_true_iff.1 (Bool.and_eq_true_iff.1 h.isKeys).1).1

/-- The keys of the pairs of an object literal are what the callback is given. -/
theorem KeysOf.mapElements_pairs {receiver keys argument : Site} {pairs : List (String × Site)}
    (h : p.KeysOf table receiver keys argument) (hpairs : table.pairs = .ok pairs) :
    p.mapElements (some receiver) = .ok (some (pairs.map fun e => .key e.1)) := by
  have hnoArray : keys.hasKind .array = false := Site.hasKind_ne h.isCall (by decide)
  unfold mapElements
  dsimp only [Option.map]
  rcases h.source with hdirect | ⟨hname, hdenoted⟩
  · have hnoName : keys.hasKind .identifier = false := Site.hasKind_ne h.isCall (by decide)
    have hnoAccess : keys.hasKind .memberExpression = false := Site.hasKind_ne h.isCall (by decide)
    simp only [hdirect, hnoName, hnoAccess, hnoArray, h.isKeys, h.isArgument, h.denotes, hpairs,
      Bool.or_self, Bool.true_or, Bool.false_eq_true, if_false, if_true, bind, Except.bind, pure,
      Except.pure]
  · rw [← denoted_unwrap] at hdenoted
    simp only [hname, hdenoted, hnoArray, h.isKeys, h.isArgument, h.denotes, hpairs, Bool.true_or,
      Bool.false_eq_true, if_false, if_true, bind, Except.bind, pure, Except.pure]

theorem KeysOf.mapElements_eq {receiver keys argument : Site}
    (h : p.KeysOf table receiver keys argument) (htable : p.Tabulates table entries) :
    p.mapElements (some receiver) = .ok (some (entries.map fun e => .key e.key)) := by
  obtain ⟨pairs, hpairs, hkeys⟩ := htable.keys_eq
  have hgiven : pairs.map (fun e => Element.key e.1) = entries.map fun e => Element.key e.key := by
    calc pairs.map (fun e => Element.key e.1) = (pairs.map (·.1)).map .key := by
          rw [List.map_map]
          rfl
      _ = entries.map fun e => Element.key e.key := by
          rw [hkeys, List.map_map]
          rfl
  rw [h.mapElements_pairs hpairs, hgiven]

/-- The bindings of a callback with one parameter. -/
theorem elementBindings_single (name : String) (elements : List Element) :
    elementBindings [name] elements = elements.map fun e => [(name, e.bound)] := by
  unfold elementBindings
  calc elements.zipIdx.map (fun e => callbackBindings [name] e.2 e.1)
      = (elements.zipIdx.map Prod.fst).map fun e => [(name, e.bound)] := by
        rw [List.map_map]
        rfl
    _ = elements.map fun e => [(name, e.bound)] := by rw [List.zipIdx_map_fst]

/-- A name that is bound to a key. -/
theorem evaluateWithin_boundName {s : Site} {n key : String} (h : IsName s n) (depth : Nat) :
    p.evaluateWithin (depth + 1) s [(n, .value (.text key))] = .ok (.ok (.text key)) := by
  rw [evaluateWithin, valueOf, Site.kind_eq_of_hasKind h.1]
  dsimp only
  rw [nameValue, h.2, List.lookup_cons, beq_self_eq_true]
  rfl

variable {callback body label value index base : Site} {n key : String}

/-- What the callback answers at a key: the text of the entry there, if evaluation can read it. -/
theorem ReadsTable.optionOf_eq (h : p.ReadsTable table callback body label value index base n)
    (htable : p.Tabulates table entries) (he : entries.find? (·.key == key) = some e) :
    ∃ o, p.optionOf [(n, .value (.text key))] body = .ok o ∧
      (valueOf? o).map Prod.fst = e.readable?.map .text := by
  have hobject : table.hasKind .object = true := (isObject_of_object h.denotes).2
  obtain ⟨pair, entry, hpair, hentry, hmember⟩ := htable.memberValue_eq hobject he
  obtain ⟨outcome, houtcome, hread⟩ := hpair.evaluateWithin_eq hentry 31
  have hvalue : p.evaluate value [(n, .value (.text key))] = .ok outcome := by
    have hfree (hname : base.unwrap.hasKind .identifier = true) :
        [(n, Bound.value (.text key))].lookup base.unwrap.text = none := by
      rw [List.lookup_cons, beq_eq_false_iff_ne.2 (h.unbound hname)]
      rfl
    rw [evaluate, evaluationDepth, evaluateWithin, valueOf, Site.kind_eq_of_hasKind h.isElement]
    dsimp only
    rw [elementValue, partValue, h.hasIndex, h.hasBase]
    dsimp only [bind, Except.bind]
    rw [evaluateWithin_boundName h.indexName]
    dsimp only
    rw [accessValue_of_object hfree h.denotes hmember, houtcome]
  have hlabel : p.evaluate label [(n, .value (.text key))] = .ok (.ok (.text key)) :=
    evaluateWithin_boundName h.labelName 32
  rw [optionOf, h.hasValue]
  dsimp only [bind, Except.bind]
  rw [hvalue]
  dsimp only
  cases outcome with
  | error f => exact ⟨.error f, rfl, hread⟩
  | ok v =>
    rw [h.hasLabel]
    dsimp only
    rw [hlabel]
    exact ⟨.ok (v, some key), rfl, hread⟩

theorem exists_mapM {ε α β : Type} {f : α → Except ε β} {R : α → β → Prop} {items : List α}
    (h : ∀ a ∈ items, ∃ b, f a = .ok b ∧ R a b) :
    ∃ results, items.mapM f = .ok results ∧ List.Forall₂ R items results := by
  induction items with
  | nil => exact ⟨[], rfl, .nil⟩
  | cons a rest ih =>
    obtain ⟨⟨b, hb, hab⟩, hrest⟩ := List.forall_mem_cons.1 h
    obtain ⟨results, hresults, hall⟩ := ih hrest
    refine ⟨b :: results, ?_, .cons hab hall⟩
    rw [List.mapM_cons, hb, hresults]
    rfl

theorem filterMap_eq_of_forall₂ {α β γ : Type} {f : α → Option γ} {g : β → Option γ} {as : List α}
    {bs : List β} (h : List.Forall₂ (fun a b => g b = f a) as bs) :
    bs.filterMap g = as.filterMap f := by
  induction h with
  | nil => rfl
  | cons hab _ ih => rw [List.filterMap_cons, List.filterMap_cons, hab, ih]

/-- What the callback answers, all keys together. -/
theorem ReadsTable.options_eq (h : p.ReadsTable table callback body label value index base n)
    (htable : p.Tabulates table entries) :
    ∃ options found, (elementBindings [n] (entries.map fun e => .key e.key)).mapM
        (fun b => p.optionOf b body) = .ok options ∧ Choices.collect options = .ok found ∧
      found.values = (entries.filterMap fun e => TableEntry.under entries e.key).map .text := by
  have hoptions : ∃ options, entries.mapM (fun e => p.optionOf [(n, .value (.text e.key))] body) =
      .ok options ∧ List.Forall₂ (fun e o => (valueOf? o).map Prod.fst =
        (TableEntry.under entries e.key).map Value.text) entries options := by
    refine exists_mapM fun e he => ?_
    have hfind : (entries.find? (·.key == e.key)).isSome = true :=
      List.find?_isSome.2 ⟨e, he, beq_self_eq_true _⟩
    obtain ⟨first, hfirst⟩ := Option.isSome_iff_exists.1 hfind
    obtain ⟨o, ho, hread⟩ := h.optionOf_eq htable hfirst
    refine ⟨o, ho, ?_⟩
    rw [hread, TableEntry.under, hfirst]
    rfl
  obtain ⟨options, hoptions, hread⟩ := hoptions
  obtain ⟨found, hfound, hvalues⟩ :=
    Choices.collect_texts ((filterMap_eq_of_forall₂ hread).trans List.map_filterMap.symm)
  refine ⟨options, found, ?_, hfound, hvalues⟩
  rw [elementBindings_single, List.map_map, List.mapM_map]
  exact hoptions

/-! ### All idioms -/

theorem MapsTable.isCall {options : Site} (h : p.MapsTable options table) :
    options.unwrap.hasKind .callExpression = true :=
  (Bool.and_eq_true_iff.1 h.isMap).1

/-- A call is reduced to nothing else. -/
theorem optionsExpression_call {s : Site} (h : s.unwrap.hasKind .callExpression = true) :
    p.optionsExpression s = .ok s.unwrap := by
  have hnoFunction : s.unwrap.isFunction = false := by
    rw [Site.isFunction, Site.kind_eq_of_hasKind h]
    rfl
  have hnoName : s.unwrap.hasKind .identifier = false := Site.hasKind_ne h (by decide)
  have hnoAccess : s.unwrap.hasKind .memberExpression = false := Site.hasKind_ne h (by decide)
  rw [optionsExpression]
  simp only [hnoFunction, hnoName, hnoAccess, Bool.false_eq_true, if_false, Bool.or_self]
  rfl

theorem isMethodCall_ne {s : Site} {method other : String} (h : s.isMethodCall method = true)
    (hne : method ≠ other) : s.isMethodCall other = false := by
  obtain ⟨hcall, h⟩ := Bool.and_eq_true_iff.1 h
  rw [Site.isMethodCall, hcall, Bool.true_and]
  cases hcallee : s.callee? with
  | none => rfl
  | some callee =>
    rw [hcallee] at h
    obtain ⟨-, h⟩ := Bool.and_eq_true_iff.1 h
    cases hproperty : callee.part? .property with
    | none => simp [hproperty]
    | some property =>
      rw [hproperty] at h
      have htext : property.text = method := eq_of_beq h
      simp [hproperty, htext, hne]

theorem copiedList_skips {s : Site} (h : s.isMethodCall "map" = true) :
    copiedList p s = doesNotApply := by
  have hnoCopy : s.isMethodCallOn "Array" "from" = false := by
    rw [Site.isMethodCallOn, isMethodCall_ne h (by decide), Bool.false_and]
  simp only [copiedList, hnoCopy]
  rfl

theorem mapCallback_eq {options : Site}
    (hargument : options.firstArgument?.map Site.unwrap = some callback)
    (hfunction : callback.isFunction = true) : p.mapCallback? options = .ok (some callback) := by
  obtain ⟨argument, hfirst, rfl⟩ := Option.map_eq_some_iff.1 hargument
  rw [mapCallback?, hfirst]
  dsimp only
  rw [if_pos hfunction]
  simp [bind, Except.bind, pure, Except.pure, hfunction]

/-- The idiom for `.map` finds what evaluation can read key by key, and fails if that is nothing. -/
theorem MapsTable.mappedList_eq {options : Site} (h : p.MapsTable options table)
    (htable : p.Tabulates table entries) :
    ∃ found, found.values = (entries.filterMap fun e => TableEntry.under entries e.key).map .text ∧
      mappedList p options.unwrap = applies
        (if !entries.isEmpty && found.isEmpty then .error .noCallbackValues else .ok found) := by
  obtain ⟨receiver, keys, keysArgument, hreceiver, hkeys⟩ := h.receiver
  obtain ⟨callback, body, label, value, index, base, n, hargument, hreads⟩ := h.callback
  obtain ⟨options', found, hoptions, hfound, hvalues⟩ := hreads.options_eq htable
  refine ⟨found, hvalues, ?_⟩
  have hcallback : p.mapCallback? options.unwrap = .ok (some callback) :=
    mapCallback_eq hargument hreads.isFunction
  unfold mappedList
  simp only [h.isMap, hreceiver, hkeys.mapElements_eq htable, hcallback, hreads.parameter,
    hreads.answers, Bool.not_true, Bool.false_eq_true, if_false, bind, Except.bind] at hoptions ⊢
  rw [hoptions]
  simp only [hfound, List.isEmpty_map]
  split <;> rfl

/-- A call denotes itself. -/
theorem denoted_call {s : Site} (h : s.unwrap.hasKind .callExpression = true) :
    p.denoted? s = .ok (some s.unwrap) := by
  have hnoName : s.unwrap.hasKind .identifier = false := Site.hasKind_ne h (by decide)
  have hnoAccess : s.unwrap.hasKind .memberExpression = false := Site.hasKind_ne h (by decide)
  rw [denoted?, deepestChain, denotedWithin_succ, longestChain, chain_succ, follow, hnoName,
    if_neg (by decide), hnoAccess, if_neg (by decide)]
  rfl

theorem KeysOf.denoted_eq {receiver keys argument : Site}
    (h : p.KeysOf table receiver keys argument) : p.denoted? receiver = .ok (some keys) := by
  rcases h.source with rfl | ⟨-, hdenoted⟩
  · exact denoted_call h.isCall
  · exact hdenoted

/-- The name that a callback reads its values from, if it is one. -/
theorem ReadsTable.indexedTable_eq (h : p.ReadsTable table callback body label value index base n) :
    indexedTable? callback = .ok (some base.unwrap |>.filter (·.hasKind .identifier)) := by
  have hbody : callback.bodyExpression?.map Site.unwrap = some body :=
    (Option.filter_eq_some_iff.1 h.answers).1
  rw [indexedTable?, hbody]
  dsimp only [bind, Except.bind]
  rw [h.hasValue]
  simp only [Option.map_some, Option.filter_some, h.isElement, if_true, Option.bind_some, h.hasBase]
  rfl

/-- The table that the idiom of tables finds. -/
theorem MapsTable.tableExpression_eq {options : Site} (h : p.MapsTable options table) :
    ∃ e, p.tableExpression? options.unwrap = .ok (some e) ∧ p.object? e = .ok (some table) := by
  obtain ⟨receiver, keys, argument, hreceiver, hkeys⟩ := h.receiver
  obtain ⟨callback, body, label, value, index, base, n, hargument, hreads⟩ := h.callback
  have hcallback : p.mapCallback? options.unwrap = .ok (some callback) :=
    mapCallback_eq hargument hreads.isFunction
  by_cases hname : base.unwrap.hasKind .identifier = true
  · refine ⟨base.unwrap, ?_, by rw [object_unwrap, hreads.denotes]⟩
    simp only [tableExpression?, hcallback, hreads.indexedTable_eq, Option.filter_some, hname, if_true,
      bind, Except.bind, pure, Except.pure]
  · refine ⟨argument, ?_, hkeys.denotes⟩
    simp only [tableExpression?, hcallback, hreads.indexedTable_eq, Option.filter_some, hname,
      Bool.false_eq_true, if_false, if_true, bind, Except.bind, pure, Except.pure, hreceiver,
      hkeys.denoted_eq, hkeys.isKeys, Option.bind_some, hkeys.isArgument]

/-- The idiom of tables finds the texts of all entries. -/
theorem MapsTable.tableList_eq {options : Site} (h : p.MapsTable options table)
    (htable : p.Tabulates table entries) (hentries : entries ≠ []) :
    tableList p options.unwrap = applies (.ok ⟨(entries.map (·.text)).map .text, []⟩) := by
  obtain ⟨e, he, hdenotes⟩ := h.tableExpression_eq
  have hsome : (entries.map (·.text)).isEmpty = false := by simpa using hentries
  unfold tableList
  simp only [h.isMap, he, hdenotes, htable.tableTexts_eq, hsome, Bool.not_true, Bool.false_eq_true,
    if_false, bind, Except.bind, pure, Except.pure]

/-- The choices of a setting whose options map the keys of a table. -/
theorem choicesOf_table {setting options : Site}
    (hoptions : setting.memberValue? "options" = .ok (some options))
    (h : p.MapsTable options table) (htable : p.Tabulates table entries) :
    ∃ c, p.choicesOf setting = .ok c ∧ c.values = (TableEntry.offered entries).map .text := by
  have hmatch : ∃ c, p.matchOptions options = .ok (.ok c) ∧
      c.values = (TableEntry.offered entries).map .text := by
    obtain ⟨found, hvalues, hmapped⟩ := h.mappedList_eq htable
    obtain ⟨hliteral, hobjects⟩ := lists_skip h.isCall (p := p)
    unfold matchOptions
    rw [optionsExpression_call h.isCall]
    dsimp only [bind, Except.bind]
    rw [idioms, firstChoices_skip hliteral, firstChoices_skip hobjects, firstChoices, hmapped]
    by_cases hfails : (!entries.isEmpty && found.isEmpty) = true
    · -- Nothing can be read key by key, so the idiom of tables is asked.
      obtain ⟨hentries, hfound⟩ := Bool.and_eq_true_iff.1 hfails
      have hne : entries ≠ [] := by simpa using hentries
      have hread : (entries.filterMap fun e => TableEntry.under entries e.key).isEmpty = true := by
        rw [Choices.isEmpty, hvalues, List.isEmpty_map] at hfound
        exact hfound
      refine ⟨⟨(entries.map (·.text)).map .text, []⟩, ?_, ?_⟩
      · rw [if_pos hfails]
        dsimp only [applies, bind, Except.bind]
        rw [firstChoices_skip (copiedList_skips h.isMap), firstChoices, h.tableList_eq htable hne]
        rfl
      · rw [TableEntry.offered, if_pos hread]
    · refine ⟨found, ?_, ?_⟩
      · rw [if_neg hfails]
        rfl
      · rw [hvalues, TableEntry.offered]
        split
        · next hread =>
          rw [Choices.isEmpty, hvalues, List.isEmpty_map, hread] at hfails
          have hnone : entries = [] := by simpa using hfails
          rw [hnone]
          rfl
        · rfl
  obtain ⟨c, hc, hvalues⟩ := hmatch
  refine ⟨c, ?_, hvalues⟩
  rw [choicesOf, hoptions]
  dsimp only [bind, Except.bind]
  rw [hc]
  rfl

end Project

/-! ### What is offered -/

namespace TableEntry

variable {entries : List TableEntry}

theorem filterMap_eq_map_iff {α β : Type} {f : α → Option β} {g : α → β} {items : List α} :
    items.filterMap f = items.map g ↔ ∀ a ∈ items, f a = some (g a) := by
  induction items with
  | nil => simp
  | cons a rest ih =>
    rw [List.filterMap_cons, List.map_cons, List.forall_mem_cons]
    cases hfirst : f a with
    | none =>
      refine iff_of_false (fun h => ?_) nofun
      change rest.filterMap f = g a :: rest.map g at h
      have hlength := congrArg List.length h
      have hle := List.length_filterMap_le f rest
      rw [List.length_cons, List.length_map] at hlength
      omega
    | some b => rw [List.cons.injEq, ih, Option.some.injEq]

/-- All texts are offered exactly if none can be read key by key, or each can. -/
theorem offered_eq_texts_iff : offered entries = entries.map (·.text) ↔
    (∀ e ∈ entries, under entries e.key = none) ∨
      ∀ e ∈ entries, under entries e.key = some e.text := by
  rw [offered]
  split
  · next hempty =>
    have hnone : ∀ e ∈ entries, under entries e.key = none :=
      List.filterMap_eq_nil_iff.1 (List.isEmpty_iff.1 hempty)
    exact iff_of_true rfl (Or.inl hnone)
  · next hread =>
    rw [filterMap_eq_map_iff]
    refine ⟨Or.inr, fun h => h.resolve_left fun hnone => hread ?_⟩
    exact List.isEmpty_iff.2 (List.filterMap_eq_nil_iff.2 hnone)

/-- Where no key is repeated, an entry is what stands under its key. -/
theorem find_key (hnodup : (entries.map (·.key)).Nodup) {e : TableEntry} (he : e ∈ entries) :
    entries.find? (·.key == e.key) = some e := by
  induction entries with
  | nil => cases he
  | cons first rest ih =>
    obtain ⟨hfirst, hrest⟩ := List.nodup_cons.1 hnodup
    rcases List.mem_cons.1 he with rfl | he
    · rw [List.find?_cons, beq_self_eq_true]
    · have hne : (first.key == e.key) = false := by
        exact beq_eq_false_iff_ne.2 fun heq => hfirst (List.mem_map.2 ⟨e, he, heq.symm⟩)
      rw [List.find?_cons, hne]
      exact ih hrest he

/-- Where no key is repeated, all texts are offered exactly if the entries are of one kind. -/
theorem offered_eq_texts_iff_of_nodup (hnodup : (entries.map (·.key)).Nodup) :
    offered entries = entries.map (·.text) ↔
      (∀ e ∈ entries, e.quoted = false) ∨ ∀ e ∈ entries, e.quoted = true := by
  have hunder (e : TableEntry) (he : e ∈ entries) : under entries e.key = e.readable? := by
    rw [under, find_key hnodup he]
    rfl
  rw [offered_eq_texts_iff]
  refine or_congr (forall₂_congr fun e he => ?_) (forall₂_congr fun e he => ?_)
  · rw [hunder e he, readable?]
    cases e.quoted <;> simp
  · rw [hunder e he, readable?]
    cases e.quoted <;> simp

end TableEntry

/-- **Choices from a lookup table.** They are the texts that are offered, in order: all texts of the
table exactly if none of them can be read key by key, or each can. -/
theorem table_choices_iff {p : Project} {setting options table : Site} {entries : List TableEntry}
    (hoptions : setting.memberValue? "options" = .ok (some options))
    (h : p.MapsTable options table) (htable : p.Tabulates table entries) :
    ∃ c, p.choicesOf setting = .ok c ∧ c.values = (TableEntry.offered entries).map .text ∧
      (c.values = (entries.map (·.text)).map .text ↔
        (∀ e ∈ entries, TableEntry.under entries e.key = none) ∨
          ∀ e ∈ entries, TableEntry.under entries e.key = some e.text) ∧
      ((entries.map (·.key)).Nodup → (c.values = (entries.map (·.text)).map .text ↔
        (∀ e ∈ entries, e.quoted = false) ∨ ∀ e ∈ entries, e.quoted = true)) := by
  obtain ⟨c, hc, hvalues⟩ := Project.choicesOf_table hoptions h htable
  have hinjective : Function.Injective Value.text := fun _ _ => Value.text.inj
  have hall : c.values = (entries.map (·.text)).map .text ↔
      TableEntry.offered entries = entries.map (·.text) := by
    rw [hvalues, (List.map_injective_iff.2 hinjective).eq_iff]
  refine ⟨c, hc, hvalues, ?_, fun hnodup => ?_⟩
  · rw [hall, TableEntry.offered_eq_texts_iff]
  · rw [hall, TableEntry.offered_eq_texts_iff_of_nodup hnodup]

/-! ### Two tables -/

def nameNode (name : String) : Node := .leaf .identifier none "" name

def callNode (callee argument : Node) : Node :=
  .tree .callExpression none
    [callee.withRole .function,
     .tree .arguments (some .arguments) [.token none "" "(", argument, .token none "" ")"]]

/-- The argument of such a call. -/
def argumentIn (call : Site) (argument : Node) : Site :=
  (call.inside (.tree .arguments (some .arguments)
    [.token none "" "(", argument, .token none "" ")"])).inside argument

/-- The method of an object. -/
def methodNode (object : Node) (name : String) : Node :=
  .tree .memberExpression none
    [object.withRole .object, .token none "" ".", .leaf .propertyIdentifier (some .property) "" name]

/-- The element `list[index]`. -/
def elementNode (list index : Node) : Node :=
  .tree .subscriptExpression none
    [list.withRole .object, .token none "" "[", index.withRole .index, .token none "" "]"]

/-- The function `parameter => (object)`. -/
def functionNode (parameter : String) (object : Node) : Node :=
  .tree .arrowFunction none
    [.leaf .identifier (some .parameter) "" parameter, .token none "" "=>",
     .tree .parenthesizedExpression (some .body) [.token none "" "(", object, .token none "" ")"]]

/-- The call `Object.keys(table)`. -/
def keysNode : Node := callNode (methodNode (nameNode "Object") "keys") (nameNode "table")

/-- The element of the table behind a key `n`. -/
def readNode : Node := elementNode (nameNode "table") (nameNode "n")

/-- What is made of a key `n`. -/
def optionNode : Node :=
  objectLiteral [pairLiteral "label" (nameNode "n"), pairLiteral "value" readNode]

/-- The call `Object.keys(table).map(n => ({ label: n, value: table[n] }))`. -/
def optionsNode : Node := callNode (methodNode keysNode "map") (functionNode "n" optionNode)

def tableSetting : Node := objectLiteral [pairLiteral "options" optionsNode]

/-- A file with a table, the constants of its helper, and a setting. -/
def tableProgram (members : List Node) : Node :=
  .tree .program none
    [constantNode "" "REPO" (textLiteral "r"), constantNode "" "COMMIT" (textLiteral "c"),
     constantNode "" "table" (objectLiteral members), constantNode "" "setting" tableSetting]

/-- The table of a program, and the setting there. -/
def tableSite (members : List Node) : Site :=
  valueIn (tableProgram members) "" "table" (objectLiteral members)

def settingSite (members : List Node) : Site :=
  valueIn (tableProgram members) "" "setting" tableSetting

/-- The options of the setting. -/
def optionsSite (members : List Node) : Site :=
  ((settingSite members).inside (pairLiteral "options" optionsNode)).inside
    (optionsNode.withRole .value)

/-- What `theme` makes of a name. -/
def themeTemplate : String := "\x7bbase\x7d/\x7brevision\x7d/\x7bname\x7d"

def themeLookup : LookupTable := ⟨.ok "theme", .ok "REPO", .ok "COMMIT", .ok themeTemplate⟩

/-- A project whose tables call `theme`. -/
def themeProject : Project := { bareProject with lookups := [themeLookup] }

theorem settingSite_options (members : List Node) :
    (settingSite members).memberValue? "options" = .ok (some (optionsSite members)) := rfl

theorem optionsSite_mapsTable (members : List Node) :
    themeProject.MapsTable (optionsSite members) (tableSite members) := by
  let receiver := ((optionsSite members).inside
    ((methodNode keysNode "map").withRole .function)).inside (keysNode.withRole .object)
  let argument := argumentIn receiver (nameNode "table")
  let callback := argumentIn (optionsSite members) (functionNode "n" optionNode)
  let body := (callback.inside (.tree .parenthesizedExpression (some .body)
    [.token none "" "(", optionNode, .token none "" ")"])).inside optionNode
  let label := (body.inside (pairLiteral "label" (nameNode "n"))).inside ((nameNode "n").withRole .value)
  let value := (body.inside (pairLiteral "value" readNode)).inside (readNode.withRole .value)
  let base := value.inside ((nameNode "table").withRole .object)
  let index := value.inside ((nameNode "n").withRole .index)
  have hfree : "table" ≠ "n" := by decide
  have hkeys : themeProject.KeysOf (tableSite members) receiver receiver argument :=
    ⟨.inl rfl, rfl, rfl, rfl⟩
  have hreads : themeProject.ReadsTable (tableSite members) callback body label value index base "n" :=
    ⟨rfl, rfl, rfl, rfl, ⟨rfl, rfl⟩, rfl, rfl, rfl, ⟨rfl, rfl⟩, rfl, fun _ => hfree, rfl⟩
  exact ⟨rfl, ⟨receiver, receiver, argument, rfl, hkeys⟩,
    ⟨callback, body, label, value, index, base, "n", rfl, hreads⟩⟩

/-- The entry `theme("name")`. -/
def themeNode (name : String) : Node := callNode (nameNode "theme") (textLiteral name)

/-- A pair of a table. -/
def pairSite (members : List Node) (key : String) (value : Node) : Site :=
  (tableSite members).inside (pairLiteral key value)

theorem enters_theme {members : List Node} {key name text : String}
    (hkey : (pairSite members key (themeNode name)).memberKey? = .ok (some key))
    (hname : (siteOf (textLiteral name)).stringValue = .ok name)
    (h : themeProject.StandsFor (tableSite members) "theme" name text) :
    themeProject.Enters (tableSite members) (pairSite members key (themeNode name))
      ⟨key, text, false⟩ := by
  let call := (pairSite members key (themeNode name)).inside ((themeNode name).withRole .value)
  let argument := argumentIn call (textLiteral name)
  have hpair : Project.IsPair (pairSite members key (themeNode name)) key call := ⟨rfl, hkey, rfl⟩
  have hargument : argument.unwrap.stringValue = .ok name := hname
  have harguments : call.callArguments = [argument] := rfl
  exact .called hpair rfl rfl harguments rfl hargument h

theorem enters_text {members : List Node} {key text : String}
    (hkey : (pairSite members key (textLiteral text)).memberKey? = .ok (some key))
    (htext : (siteOf (textLiteral text)).stringValue = .ok text) :
    themeProject.Enters (tableSite members) (pairSite members key (textLiteral text))
      ⟨key, text, true⟩ := by
  let value := (pairSite members key (textLiteral text)).inside ((textLiteral text).withRole .value)
  have hpair : Project.IsPair (pairSite members key (textLiteral text)) key value := ⟨rfl, hkey, rfl⟩
  have hvalue : value.stringValue = .ok text := htext
  exact .quoted hpair rfl hvalue

theorem standsFor_theme {table : Site} {name text : String}
    (hbase : themeProject.textConstant? table "REPO" = .ok (some "r"))
    (hrevision : themeProject.textConstant? table "COMMIT" = .ok (some "c"))
    (hfill : Text.fill themeTemplate [("base", "r"), ("revision", "c"), ("name", name)] = .ok text) :
    themeProject.StandsFor table "theme" name text :=
  ⟨[], themeLookup, [], rfl, List.forall_mem_nil _,
    ⟨rfl, "REPO", "COMMIT", themeTemplate, "r", "c", rfl, hbase, rfl, hrevision, rfl, hfill⟩⟩

def themeMembers : List Node := [pairLiteral "A" (themeNode "a"), pairLiteral "B" (themeNode "b")]

theorem themes_offered :
    ∃ c, themeProject.choicesOf (settingSite themeMembers) = .ok c ∧
      c.values = [.text "r/c/a", .text "r/c/b"] := by
  have htable : themeProject.Tabulates (tableSite themeMembers)
      [⟨"A", "r/c/a", false⟩, ⟨"B", "r/c/b", false⟩] := by
    have hfirst : themeProject.Enters (tableSite themeMembers)
        (pairSite themeMembers "A" (themeNode "a")) ⟨"A", "r/c/a", false⟩ :=
      enters_theme rfl rfl (standsFor_theme rfl rfl rfl)
    have hsecond : themeProject.Enters (tableSite themeMembers)
        (pairSite themeMembers "B" (themeNode "b")) ⟨"B", "r/c/b", false⟩ :=
      enters_theme rfl rfl (standsFor_theme rfl rfl rfl)
    exact .cons hfirst (.cons hsecond .nil)
  obtain ⟨c, hc, hvalues, -⟩ := table_choices_iff (settingSite_options themeMembers)
    (optionsSite_mapsTable themeMembers) htable
  exact ⟨c, hc, hvalues⟩

/-- A quoted entry before a call. -/
def mixedMembers : List Node := [pairLiteral "A" (textLiteral "x"), pairLiteral "B" (themeNode "b")]

theorem call_beside_quoted_not_offered :
    (settingSite mixedMembers).memberValue? "options" = .ok (some (optionsSite mixedMembers)) ∧
    themeProject.MapsTable (optionsSite mixedMembers) (tableSite mixedMembers) ∧
    themeProject.Tabulates (tableSite mixedMembers) [⟨"A", "x", true⟩, ⟨"B", "r/c/b", false⟩] ∧
    ∃ c, themeProject.choicesOf (settingSite mixedMembers) = .ok c ∧ c.values = [.text "x"] ∧
      c.values ≠ [.text "x", .text "r/c/b"] := by
  have htable : themeProject.Tabulates (tableSite mixedMembers)
      [⟨"A", "x", true⟩, ⟨"B", "r/c/b", false⟩] := by
    have hfirst : themeProject.Enters (tableSite mixedMembers)
        (pairSite mixedMembers "A" (textLiteral "x")) ⟨"A", "x", true⟩ :=
      enters_text rfl rfl
    have hsecond : themeProject.Enters (tableSite mixedMembers)
        (pairSite mixedMembers "B" (themeNode "b")) ⟨"B", "r/c/b", false⟩ :=
      enters_theme rfl rfl (standsFor_theme rfl rfl rfl)
    exact .cons hfirst (.cons hsecond .nil)
  have hmaps := optionsSite_mapsTable mixedMembers
  obtain ⟨c, hc, hvalues⟩ :=
    Project.choicesOf_table (settingSite_options mixedMembers) hmaps htable
  refine ⟨rfl, hmaps, htable, c, hc, hvalues, fun hall => ?_⟩
  have hlength := congrArg List.length (hvalues.symm.trans hall)
  exact absurd hlength (by decide)

end SettingsHarvest
