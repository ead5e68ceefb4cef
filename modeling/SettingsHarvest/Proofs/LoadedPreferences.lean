import Mathlib
import SettingsHarvest.Proofs.Checks
import SettingsHarvest.Proofs.Merging

/-! Preferences out of files.

Of a mapping in a configuration file only keys that mean something count: with unknown ones it comes to the
same as without them, and a warning. The promise is that this gives preferences under the standard keys that
are let pass, or a refusal (`Settled`). It is broken in two places. The warning lists unknown keys, and has no
words for keys that are no texts; and the message of a refusal shows what is wrong, which an integer with too
many digits is not. `flaws` lists what a check has to show, in the order in which it looks, and
`load_settled_iff` says that there is no third place. -/
namespace SettingsHarvest
namespace Preferences

/-! ### Flaws -/

/-- What a message about something wrong shows. -/
abbrev Flaw := List Datum

def positiveFlaws (s : Preferences) (key : String) : List Flaw :=
  if isPositive (s.get key) then [] else [[s.get key]]

def mappingFlaws (s : Preferences) (key : String) : List Flaw :=
  if (s.get key).entries?.isSome then [] else [[]]

def memberFlaws (enumeration : Datum) (member : Datum × Datum) : List Flaw :=
  if member.1.text?.isSome && isMemberValue member.2 then [] else [[enumeration, member.1, member.2]]

def enumerationFlaws (e : Datum × Datum) : List Flaw :=
  match e.2.entries? with
  | some members => members.flatMap (memberFlaws e.1)
  | none => [[e.1, e.2]]

def tableFlaws (table : Datum) : List Flaw :=
  match table.entries? with
  | some entries =>
    if lookupKeys.all fun key => (Datum.lookup? (.text key) entries).isSome then [] else [[]]
  | none => [[table]]

def lookupFlaws : Datum → List Flaw
  | .list tables => tables.flatMap tableFlaws
  | _ => [[]]

/-- Everything that is wrong with preferences, in the order in which it is looked for. -/
def flaws (s : Preferences) : List Flaw :=
  ["concurrency", "progress_interval"].flatMap s.positiveFlaws ++
  (["path_aliases", "plugin_renames", "external_enums"].flatMap s.mappingFlaws ++
  ((s.entriesOf "external_enums").flatMap enumerationFlaws ++ lookupFlaws (s.get "lookup_tables")))

/-- A check that reports the first of the flaws, or none. -/
def Reports (check : Attempt Unit) : List Flaw → Prop
  | [] => check = .ok ()
  | flaw :: _ => ∃ message, check = refuseShowing flaw message

namespace Reports

theorem of_if {c : Bool} {flaw : Flaw} {message : String} {check : Attempt Unit}
    (h : check = if c then .ok () else refuseShowing flaw message) :
    Reports check (if c then [] else [flaw]) := by
  cases c with
  | true => exact h
  | false => exact ⟨message, h⟩

theorem bind {first second : Attempt Unit} {found others : List Flaw} (hfirst : Reports first found)
    (hsecond : Reports second others) : Reports (first >>= fun _ => second) (found ++ others) := by
  cases found with
  | nil =>
    rw [show first = .ok () from hfirst]
    exact hsecond
  | cons flaw rest =>
    obtain ⟨message, rfl⟩ := hfirst
    obtain ⟨f, hf⟩ := refuseShowing_eq_error (α := Unit) flaw message
    exact ⟨message, by rw [hf]; rfl⟩

theorem forM {α : Type} {check : α → Attempt Unit} {found : α → List Flaw} {items : List α}
    (h : ∀ a ∈ items, Reports (check a) (found a)) : Reports (items.forM check) (items.flatMap found) := by
  induction items with
  | nil => rfl
  | cons a rest ih =>
    obtain ⟨ha, hrest⟩ := List.forall_mem_cons.1 h
    rw [List.flatMap_cons]
    exact ha.bind (ih hrest)

end Reports

theorem reports_checkMember (enumeration : Datum) (m : Datum × Datum) :
    Reports (checkMember enumeration m) (memberFlaws enumeration m) := .of_if rfl

theorem reports_checkEnumeration (e : Datum × Datum) :
    Reports (checkEnumeration e) (enumerationFlaws e) := by
  rw [checkEnumeration, enumerationFlaws]
  cases e.2.entries? with
  | some members => exact .forM fun m _ => reports_checkMember e.1 m
  | none => exact ⟨_, rfl⟩

theorem reports_checkLookup (table : Datum) : Reports (checkLookup table) (tableFlaws table) := by
  rw [checkLookup, tableFlaws]
  cases table.entries? with
  | none => exact ⟨_, rfl⟩
  | some entries =>
    have hall : (lookupKeys.all fun key => (Datum.lookup? (.text key) entries).isSome) = true ↔
        (lookupKeys.filter fun key => (Datum.lookup? (.text key) entries).isNone) = [] := by
      simp [List.filter_eq_nil_iff, Option.isSome_iff_ne_none]
    dsimp only
    cases hmissing : lookupKeys.filter fun key => (Datum.lookup? (.text key) entries).isNone with
    | nil =>
      rw [if_pos (hall.2 hmissing)]
      rfl
    | cons key rest =>
      have hkey : key :: rest ≠ [] := List.cons_ne_nil key rest
      rw [← hmissing] at hkey
      rw [if_neg (hall.not.2 hkey)]
      exact ⟨_, rfl⟩

theorem reports_checkLookups (d : Datum) : Reports (checkLookups d) (lookupFlaws d) := by
  cases d with
  | list tables => exact .forM fun table _ => reports_checkLookup table
  | null | truth | integer | decimal | text | mapping | other => exact ⟨_, rfl⟩

/-- Of all that is wrong the first flaw is reported. -/
theorem reports_check (s : Preferences) : Reports s.check s.flaws :=
  .bind (.forM fun _ _ => .of_if rfl) (.bind (.forM fun _ _ => .of_if rfl)
    (.bind (.forM fun e _ => reports_checkEnumeration e) (reports_checkLookups _)))

/-! ### Keys -/

/-- What is known of a mapping in a file, over the standard preferences. -/
def effective (entries : Preferences) : Preferences :=
  withOverrides standard (entries.filter fun e => isKnown e.1)

/-- There is nothing under keys other than the standard ones. -/
theorem keys_effective (entries : Preferences) : (effective entries).map (·.1) = standard.map (·.1) := by
  refine Datum.keys_mergeEntries_of_held fun e he => ?_
  have hknown : isKnown e.1 = true := (List.mem_filter.1 he).2
  exact Option.isSome_iff_ne_none.1 hknown

/-- A line of keys can be written if they are all texts. -/
theorem exists_keyLine_iff {keys : List Datum} :
    (∃ line, keyLine keys = .ok line) ↔ ∀ k ∈ keys, ∃ name, k = .text name := by
  have hall : (∀ k ∈ keys, ∃ name, k = .text name) ↔ keys.filter (·.text?.isNone) = [] := by
    simp only [List.filter_eq_nil_iff, Bool.not_eq_true, Option.isNone_eq_false_iff,
      Option.isSome_iff_exists, text?_eq_some]
  rw [hall, keyLine]
  cases keys.filter (·.text?.isNone) with
  | nil => exact iff_of_true ⟨_, rfl⟩ rfl
  | cons other rest =>
    refine iff_of_false ?_ nofun
    rintro ⟨line, hline⟩
    cases htexts : keys.filterMap Datum.text? with
    | nil => rw [htexts] at hline; cases hline
    | cons => rw [htexts] at hline; cases hline

def unknownKeys (entries : Preferences) : List Datum := (entries.map (·.1)).filter (!isKnown ·)

/-- What the preferences of a mapping come to. -/
def verdict (entries : Preferences) : Attempt Preferences :=
  (effective entries).check.map fun _ => effective entries

/-- The warning about unknown keys. -/
def Warns (keys : List Datum) (warning : Option String) : Prop :=
  if keys = [] then warning = none
  else ∃ line, keyLine keys = .ok line ∧ warning = some ("Ignoring unknown config keys: " ++ line)

theorem ofDatum_eq_ok {path : String} {entries : Preferences} {warning : Option String}
    {outcome : Attempt Preferences} :
    ofDatum path (.mapping entries) = .ok (warning, outcome) ↔
      Warns (unknownKeys entries) warning ∧ outcome = verdict entries := by
  rw [ofDatum, Warns, ← unknownKeys]
  cases hkeys : unknownKeys entries with
  | nil =>
    rw [if_pos rfl]
    refine ⟨fun h => ?_, ?_⟩
    · obtain ⟨rfl, rfl⟩ := Prod.mk.inj (Except.ok.inj h)
      exact ⟨rfl, rfl⟩
    · rintro ⟨rfl, rfl⟩
      rfl
  | cons key rest =>
    rw [if_neg (List.cons_ne_nil key rest)]
    constructor
    · intro h
      obtain ⟨line, hline, h⟩ := bind_eq_ok.1 h
      obtain ⟨rfl, rfl⟩ := Prod.mk.inj (Except.ok.inj h)
      exact ⟨⟨line, hline, rfl⟩, rfl⟩
    · rintro ⟨⟨line, hline, rfl⟩, rfl⟩
      exact bind_eq_ok.2 ⟨line, hline, rfl⟩

/-! ### Files -/

/-- Preferences with the standard keys that are let pass, or a refusal. -/
def Settled (loaded : Attempt (Option String × Attempt Preferences)) : Prop :=
  ∃ warning outcome, loaded = .ok (warning, outcome) ∧
    ((∃ s, outcome = .ok s ∧ s.map (·.1) = standard.map (·.1) ∧ s.check = .ok ()) ∨
      ∃ message, outcome = .error (.configuration message))

theorem mem_unknownKeys {entries : Preferences} {k : Datum} :
    k ∈ unknownKeys entries ↔ ∃ e ∈ entries, isKnown e.1 = false ∧ e.1 = k := by
  simp only [unknownKeys, List.mem_filter, List.mem_map, Bool.not_eq_true']
  constructor
  · rintro ⟨⟨e, he, rfl⟩, hk⟩
    exact ⟨e, he, hk, rfl⟩
  · rintro ⟨e, he, hk, rfl⟩
    exact ⟨⟨e, he, rfl⟩, hk⟩

theorem unknownKeys_ne_nil_iff {entries : Preferences} :
    unknownKeys entries ≠ [] ↔ ∃ e ∈ entries, isKnown e.1 = false := by
  constructor
  · intro h
    obtain ⟨k, hk⟩ := List.exists_mem_of_ne_nil _ h
    obtain ⟨e, he, hknown, -⟩ := mem_unknownKeys.1 hk
    exact ⟨e, he, hknown⟩
  · rintro ⟨e, he, hknown⟩
    exact List.ne_nil_of_mem (mem_unknownKeys.2 ⟨e, he, hknown, rfl⟩)

theorem unknownKeys_known {entries : Preferences} :
    unknownKeys (entries.filter fun e => isKnown e.1) = [] := by
  by_contra hsome
  obtain ⟨e, he, hunknown⟩ := unknownKeys_ne_nil_iff.1 hsome
  have hknown : isKnown e.1 = true := (List.mem_filter.1 he).2
  exact Bool.noConfusion (hunknown.symm.trans hknown)

/-- Unknown keys can be warned about if they are texts. -/
theorem exists_warning_iff {entries : Preferences} : (∃ warning, Warns (unknownKeys entries) warning) ↔
    ∀ e ∈ entries, isKnown e.1 = true ∨ ∃ name, e.1 = .text name := by
  have htexts : (∀ k ∈ unknownKeys entries, ∃ name, k = .text name) ↔
      ∀ e ∈ entries, isKnown e.1 = true ∨ ∃ name, e.1 = .text name := by
    simp only [mem_unknownKeys, forall_exists_index, and_imp]
    constructor
    · intro h e he
      refine or_iff_not_imp_left.2 fun hknown => h e.1 e he (Bool.eq_false_iff.2 hknown) rfl
    · rintro h _ e he hknown rfl
      exact (h e he).resolve_left (by simp [hknown])
  rw [← htexts, ← exists_keyLine_iff]
  unfold Warns
  split
  · next hnone => exact iff_of_true ⟨_, rfl⟩ ⟨"", by rw [hnone]; rfl⟩
  · constructor
    · rintro ⟨_, line, hline, -⟩
      exact ⟨line, hline⟩
    · rintro ⟨line, hline⟩
      exact ⟨_, line, hline, rfl⟩

theorem warning_isSome {entries : Preferences} {warning : Option String}
    (h : Warns (unknownKeys entries) warning) :
    warning.isSome = true ↔ ∃ e ∈ entries, isKnown e.1 = false := by
  unfold Warns at h
  split at h
  · next hnone =>
    refine iff_of_false (by simp [h]) fun hunknown => ?_
    exact absurd hnone (unknownKeys_ne_nil_iff.2 hunknown)
  · next hsome =>
    obtain ⟨line, -, rfl⟩ := h
    exact iff_of_true rfl (unknownKeys_ne_nil_iff.1 hsome)

/-- A refusal fails itself where it would show what cannot be written. -/
theorem verdict_settled_iff {entries : Preferences} :
    ((∃ s, verdict entries = .ok s ∧ s.map (·.1) = standard.map (·.1) ∧ s.check = .ok ()) ∨
      ∃ message, verdict entries = .error (.configuration message)) ↔
    ∀ flaw ∈ (effective entries).flaws.head?, ∀ d ∈ flaw, d.isWritable = true := by
  have hreports := reports_check (effective entries)
  rw [verdict]
  cases hflaws : (effective entries).flaws with
  | nil =>
    rw [hflaws] at hreports
    have hcheck : (effective entries).check = .ok () := hreports
    rw [hcheck]
    exact iff_of_true (.inl ⟨_, rfl, keys_effective entries, hcheck⟩) nofun
  | cons flaw rest =>
    rw [hflaws] at hreports
    obtain ⟨message, hcheck⟩ := hreports
    rw [hcheck, refuseShowing, List.head?_cons]
    simp only [Option.mem_some_iff, forall_eq', ← List.all_eq_true]
    split
    · next hall => exact iff_of_true (.inr ⟨message, rfl⟩) hall
    · next hall =>
      refine iff_of_false ?_ hall
      rintro (⟨s, hs, -⟩ | ⟨message, hmessage⟩)
      · cases hs
      · cases hmessage

theorem settled_ofDatum_iff {path : String} {entries : Preferences} :
    Settled (ofDatum path (.mapping entries)) ↔
      (∀ e ∈ entries, isKnown e.1 = true ∨ ∃ name, e.1 = .text name) ∧
      ∀ flaw ∈ (effective entries).flaws.head?, ∀ d ∈ flaw, d.isWritable = true := by
  rw [← exists_warning_iff, ← verdict_settled_iff]
  constructor
  · rintro ⟨warning, outcome, h, houtcome⟩
    obtain ⟨hwarns, rfl⟩ := ofDatum_eq_ok.1 h
    exact ⟨⟨warning, hwarns⟩, houtcome⟩
  · rintro ⟨⟨warning, hwarns⟩, hverdict⟩
    exact ⟨warning, _, ofDatum_eq_ok.2 ⟨hwarns, rfl⟩, hverdict⟩

/-- Without its unknown keys a mapping comes to the same, and to no warning. -/
theorem ofDatum_known {path : String} {entries : Preferences} {warning : Option String}
    {outcome : Attempt Preferences} (h : ofDatum path (.mapping entries) = .ok (warning, outcome)) :
    ofDatum path (.mapping (entries.filter fun e => isKnown e.1)) = .ok (none, outcome) := by
  obtain ⟨-, rfl⟩ := ofDatum_eq_ok.1 h
  refine ofDatum_eq_ok.2 ⟨?_, ?_⟩
  · rw [Warns, if_pos unknownKeys_known]
  · rw [verdict, verdict, effective, effective, List.filter_filter]
    simp

theorem load_of_mapping {t : FileTree} {path text : String} {entries : Preferences}
    (hread : t.read path = .ok text)
    (hmapping : Yaml.load (String.ofList (unifyLines text.toList)) = .ok (.mapping entries)) :
    load t path = ofDatum path (.mapping entries) := by
  rw [load, hread]
  dsimp only
  rw [hmapping]

/-- **What preferences are settled by.** A mapping gives preferences under the standard keys that are let
pass, or is refused, exactly if the unknown keys in it are texts and the first flaw, if there is one, can be
written. Unknown keys bring about a warning and nothing else. A file comes to what the mapping in it does. -/
theorem load_settled_iff (path : String) (entries : Preferences) :
    (Settled (ofDatum path (.mapping entries)) ↔
      (∀ e ∈ entries, isKnown e.1 = true ∨ ∃ name, e.1 = .text name) ∧
      ∀ flaw ∈ (effective entries).flaws.head?, ∀ d ∈ flaw, d.isWritable = true) ∧
    (∀ warning outcome, ofDatum path (.mapping entries) = .ok (warning, outcome) →
      (warning.isSome = true ↔ ∃ e ∈ entries, isKnown e.1 = false) ∧
      ofDatum path (.mapping (entries.filter fun e => isKnown e.1)) = .ok (none, outcome)) ∧
    ∀ t text, FileTree.read t path = .ok text →
      Yaml.load (String.ofList (unifyLines text.toList)) = .ok (.mapping entries) →
      load t path = ofDatum path (.mapping entries) := by
  refine ⟨settled_ofDatum_iff, fun warning outcome h => ⟨?_, ofDatum_known h⟩, fun _ _ => load_of_mapping⟩
  exact warning_isSome (ofDatum_eq_ok.1 h).1

/-- A tree with a configuration file and nothing else. -/
def configured (text : String) : FileTree := ⟨[], [(["conf.yaml"], text)], []⟩

theorem read_configured (text : String) : (configured text).read "conf.yaml" = .ok text := by
  have hsegments : Path.segments "conf.yaml" = ["conf.yaml"] := by
    simp +decide [Path.segments, String.splitOn, String.splitOnAux]
  have habsolute : Path.isAbsolute "conf.yaml" = false := by decide +kernel
  rw [FileTree.read, FileTree.find, hsegments, habsolute]
  rfl

/-- An unknown key that is a text. -/
theorem text_key_settled :
    Yaml.load (String.ofList (unifyLines "foo: x\n".toList)) =
      .ok (.mapping [(.text "foo", .text "x")]) ∧
    Settled (load (configured "foo: x\n") "conf.yaml") := by
  have hmapping : Yaml.load (String.ofList (unifyLines "foo: x\n".toList)) =
      .ok (.mapping [(.text "foo", .text "x")]) := by cbv
  have hflaws : (effective [(.text "foo", .text "x")]).flaws = [] := rfl
  obtain ⟨hsettled, -, hload⟩ := load_settled_iff "conf.yaml" [(.text "foo", .text "x")]
  refine ⟨hmapping, ?_⟩
  rw [hload _ _ (read_configured _) hmapping]
  refine hsettled.2 ⟨?_, ?_⟩
  · simp
  · simp [hflaws]

/-- A key that is no text. -/
theorem integer_key_unsettled :
    Yaml.load (String.ofList (unifyLines "1: x\n".toList)) = .ok (.mapping [(.integer 1, .text "x")]) ∧
    load (configured "1: x\n") "conf.yaml" = .error (.keyNotText 0 "int") ∧
    ¬Settled (load (configured "1: x\n") "conf.yaml") := by
  have hmapping : Yaml.load (String.ofList (unifyLines "1: x\n".toList)) =
      .ok (.mapping [(.integer 1, .text "x")]) := by cbv
  have hload : load (configured "1: x\n") "conf.yaml" = .error (.keyNotText 0 "int") := by
    rw [load, read_configured]
    dsimp only
    rw [hmapping]
    rfl
  refine ⟨hmapping, hload, ?_⟩
  rw [hload]
  rintro ⟨warning, outcome, h, -⟩
  cases h

end Preferences
end SettingsHarvest
