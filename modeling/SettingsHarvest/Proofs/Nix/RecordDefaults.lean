import SettingsHarvest.Proofs.Nix.AttributeNames
import SettingsHarvest.Proofs.Nix.Options
import SettingsHarvest.Proofs.Nix.QuotedString

/-! Records as the defaults of options.

The keys of a record are data, but they are written like the names of settings: each field that is not null
gets a line of its own, under the identifier of its key. What such a name denotes is the key it was made of
just if the key is spelled like an identifier in the first place (`IsOwnName`); any other key gives way to
another one. As no key comes back once it has changed (`keepsName_of_denotes`), the names of a set stand for
its keys only if every single one does (`record_default_exact`). -/
namespace SettingsHarvest.Nix

/-! ### What names denote -/

/-- What the name of an attribute denotes: itself, or what its quotes are read as. -/
inductive Denotes : List Char → List Char → Prop where
  | plain {name : List Char} : IsPlainName name → Denotes name name
  | quoted {body key : List Char} : readQuoted body = ⟨key, .closed []⟩ → Denotes ('"' :: body) key

theorem not_isPlainName_quote (body : List Char) : ¬IsPlainName ('"' :: body) := by
  intro h
  exact absurd (h.nameChars '"' List.mem_cons_self) (by decide)

theorem Denotes.unique {name key key' : List Char} (h : Denotes name key) (h' : Denotes name key') :
    key = key' := by
  cases h with
  | plain hplain =>
    cases h' with
    | plain => rfl
    | quoted => exact absurd hplain (not_isPlainName_quote _)
  | quoted hread =>
    cases h' with
    | plain hplain => exact absurd hplain (not_isPlainName_quote _)
    | quoted hread' => exact congrArg QuotedReading.text (hread.symm.trans hread')

theorem Denotes.eq_self {name key : List Char} (h : Denotes name key) (hquote : name.head? ≠ some '"') :
    key = name := by
  cases h with
  | plain => rfl
  | quoted => exact absurd rfl hquote

theorem denotes_keyword {k : String} (h : k ∈ keywords) : Denotes ('"' :: k.toList ++ ['"']) k.toList := by
  refine .quoted ?_
  revert k
  decide

/-- An identifier denotes itself, or the keyword in it. -/
theorem denotes_identifier_iff {name key : List Char} : Denotes (identifier name) key ↔
    (IsPlainName (identifier name) ∧ identifier name = key) ∨
      ∃ k ∈ keywords, identifier name = '"' :: k.toList ++ ['"'] ∧ k.toList = key := by
  constructor
  · intro h
    rcases identifier_is_attribute_name name with hplain | ⟨k, hk, hid⟩
    · exact .inl ⟨hplain, (Denotes.plain hplain).unique h⟩
    · rw [hid] at h
      exact .inr ⟨k, hk, hid, (denotes_keyword hk).unique h⟩
  · rintro (⟨hplain, rfl⟩ | ⟨k, hk, hid, rfl⟩)
    · exact .plain hplain
    · rw [hid]
      exact denotes_keyword hk

/-! ### Keys that are kept -/

/-- A key whose identifier denotes it. -/
def KeepsName (key : String) : Prop := Denotes (identifier key.toList) key.toList

theorem keepsName_keyword {key : String} (h : key ∈ keywords) : KeepsName key := by
  have hid : identifier key.toList = '"' :: key.toList ++ ['"'] := by
    revert key
    decide
  rw [KeepsName, hid]
  exact denotes_keyword h

/-- Keys that are spelled like identifiers: keywords, and spellings that stay as they are, with an
underscore in front or else with what a name can start with. -/
inductive IsOwnName (key : String) : Prop where
  | keyword : key ∈ keywords → IsOwnName key
  | spelled : IsSpelling key.toList → startsName key.toList = true → settle key.toList = key.toList →
    IsOwnName key
  | underscored {body : List Char} : key.toList = '_' :: body → IsSpelling body →
    settle key.toList = key.toList → IsOwnName key

theorem isPlainName_of_spelled {key : String} (h : IsSpelling key.toList)
    (hstart : startsName key.toList = true) (hk : key ∉ keywords) : IsPlainName key.toList :=
  ⟨exists_head_of_startsName hstart, h.nameChars, by rwa [String.ofList_toList]⟩

/-- A key is kept exactly if it is spelled like an identifier. -/
theorem keepsName_iff {key : String} : KeepsName key ↔ IsOwnName key := by
  constructor
  · intro h
    rcases denotes_identifier_iff.1 h with ⟨hplain, hid⟩ | ⟨k, hk, -, hkey⟩
    · have hsettled : settle key.toList = key.toList := by
        have hagain := identifier_identifier key.toList
        rw [hid, hid] at hagain
        exact hagain.symm
      have hspelling := isSpelling_spelling key.toList
      rcases identifier_cases key.toList with hunder | ⟨hstart, hquoted⟩
      · exact .underscored (hid.symm.trans hunder) hspelling hsettled
      · by_cases hk : keywords.contains (String.ofList (spelling (nameBody key.toList))) = true
        · rw [hquoted, quotedKeyword, if_pos hk] at hplain
          exact absurd hplain (not_isPlainName_quote _)
        · rw [hid, quotedKeyword, if_neg hk] at hquoted
          rw [← hquoted] at hspelling hstart
          exact .spelled hspelling hstart hsettled
    · rw [String.toList_inj.1 hkey] at hk
      exact .keyword hk
  · intro h
    by_cases hk : key ∈ keywords
    · exact keepsName_keyword hk
    · rw [KeepsName]
      cases h with
      | keyword h => exact absurd h hk
      | spelled hspelling hstart hsettled =>
        have hfree : quotedKeyword key.toList = key.toList := by
          rw [quotedKeyword, String.ofList_toList, if_neg (by simpa using hk)]
        rw [identifier_spelling hspelling hstart hfree, hsettled]
        exact .plain (isPlainName_of_spelled hspelling hstart hk)
      | underscored hkey hspelling hsettled =>
        rw [hkey] at hsettled ⊢
        rw [identifier_underscore hspelling, hsettled]
        exact .plain (isPlainName_underscore hspelling.nameChars)

/-- Whatever is its own identifier is spelled like one, unless it comes with quotes. -/
theorem isOwnName_of_identifier_eq {key : String} (h : identifier key.toList = key.toList)
    (hquote : key.toList.head? ≠ some '"') : IsOwnName key := by
  rw [← keepsName_iff, KeepsName]
  rcases identifier_is_attribute_name key.toList with hplain | ⟨k, -, hquoted⟩
  · rw [h] at hplain ⊢
    exact .plain hplain
  · rw [h] at hquoted
    rw [hquoted] at hquote
    exact absurd rfl hquote

/-! ### No key comes back -/

theorem head?_fuse_isLower {behindCapital : Bool} {s : List Char} (h : s.head?.any isLower = true) :
    (fuse behindCapital s).head?.any isLower = true := by
  cases s with
  | nil => cases h
  | cons c rest =>
    have hlower : isLower c = true := h
    simp [fuse, isUpper_eq_false_of_isLower hlower, hlower]

/-- Capitals that are left are left for good. -/
theorem fuse_fuse {behind behindAgain : Bool} (h : behindAgain = true → behind = true) (s : List Char) :
    fuse behindAgain (fuse behind s) = fuse behind s := by
  induction s generalizing behind behindAgain with
  | nil => rfl
  | cons c rest ih =>
    rw [fuse, fuse]
    by_cases hsmall : (isUpper c && behind && !(rest.head?.any isLower)) = true
    · have hup : isUpper c = true := by
        simp only [Bool.and_eq_true] at hsmall
        exact hsmall.1.1
      have hnow : isUpper c.toLower = false :=
        isUpper_eq_false_of_isSmall (isSmall_toLower (isWordChar_of_isUpper hup))
      rw [if_pos hsmall, hnow, ih (by simp)]
      rfl
    · have hkept : ¬(isUpper c && behindAgain && !((fuse (isUpper c) rest).head?.any isLower)) = true := by
        simp only [Bool.and_eq_true, not_and] at hsmall ⊢
        rintro ⟨hup, hbehind⟩
        have hlower : rest.head?.any isLower = true := by simpa using hsmall ⟨hup, h hbehind⟩
        simp [head?_fuse_isLower hlower]
      rw [if_neg hsmall, if_neg hkept, ih id]

theorem settle_settle (s : List Char) : settle (settle s) = settle s := by
  by_cases h : s.tail.contains '_' = true
  · have hfused : settle s = fuse false s := if_pos h
    rw [hfused, settle]
    split
    · exact fuse_fuse id s
    · rfl
  · have hkept : settle s = s := if_neg h
    rw [hkept, hkept]

/-- What the name of a key's successor denotes is kept. -/
theorem keepsName_of_denotes {key next last : String} (h : Denotes (identifier key.toList) next.toList)
    (h' : Denotes (identifier next.toList) last.toList) : KeepsName last := by
  rcases denotes_identifier_iff.1 h with ⟨-, hid⟩ | ⟨k, hk, -, hkey⟩
  · rcases denotes_identifier_iff.1 h' with ⟨hplain, hid'⟩ | ⟨k, hk, -, hkey⟩
    · have hsettled : last.toList = settle (identifier key.toList) := by
        rw [← hid', ← hid, identifier_identifier]
      have hagain : identifier last.toList = last.toList := by
        rw [← hid', identifier_identifier, hid', hsettled, settle_settle]
      rw [hid'] at hplain
      rw [KeepsName, hagain]
      exact .plain hplain
    · rw [← String.toList_inj.1 hkey]
      exact keepsName_keyword hk
  · have hkept := keepsName_keyword hk
    rw [String.toList_inj.1 hkey] at hkept
    rwa [← String.toList_inj.1 (hkept.unique h')]

/-! ### The names of a set -/

@[simp] theorem toList_identifierText (name : String) :
    (identifierText name).toList = identifier name.toList := String.toList_ofList

/-- Names of attributes keep some keys: no two of them are alike, and they denote the keys and nothing
else. -/
structure NamesKeep (names keys : List String) : Prop where
  distinct : names.Nodup
  denoted : ∀ key : String, (∃ name ∈ names, Denotes name.toList key.toList) ↔ key ∈ keys

/-- Where all keys are denoted by names made of keys, every key is kept. -/
theorem keepsName_of_denoted {keys : List String}
    (h : ∀ key ∈ keys, ∃ k ∈ keys, Denotes (identifier k.toList) key.toList) :
    ∀ key ∈ keys, KeepsName key := by
  intro key hkey
  -- Two steps back from any key there is another one, so what the key is by now is for good.
  obtain ⟨next, hnext, hdenotes⟩ := h key hkey
  obtain ⟨first, -, hfirst⟩ := h next hnext
  exact keepsName_of_denotes hfirst hdenotes

theorem namesKeep_iff {keys : List String} (hdistinct : keys.Nodup) :
    NamesKeep (keys.map identifierText) keys ↔ ∀ key ∈ keys, IsOwnName key := by
  simp only [← keepsName_iff]
  constructor
  · intro h
    refine keepsName_of_denoted fun key hkey => ?_
    obtain ⟨name, hname, hdenotes⟩ := (h.denoted key).2 hkey
    obtain ⟨k, hk, rfl⟩ := List.mem_map.1 hname
    exact ⟨k, hk, by rwa [toList_identifierText] at hdenotes⟩
  · intro h
    constructor
    · refine List.Nodup.map_on (fun a ha b hb heq => ?_) hdistinct
      have hid := identifierText_inj.1 heq
      have hb := h b hb
      rw [KeepsName, ← hid] at hb
      exact String.toList_inj.1 ((h a ha).unique hb)
    · intro key
      constructor
      · rintro ⟨name, hname, hdenotes⟩
        obtain ⟨k, hk, rfl⟩ := List.mem_map.1 hname
        rw [toList_identifierText] at hdenotes
        rwa [← String.toList_inj.1 ((h k hk).unique hdenotes)]
      · intro hkey
        exact ⟨_, List.mem_map_of_mem hkey, by rw [toList_identifierText]; exact h key hkey⟩

/-! ### What is written for a record -/

/-- The fields of a record that are not null. -/
def shownFields (fields : List (String × Value)) : List (String × Value) :=
  fields.filter fun field => match field.2 with
    | .null => false
    | _ => true

theorem shownFields_eq (fields : List (String × Value)) :
    shownFields fields = fields.filter fun field => !(termOf field.2).isNull := by
  refine List.filter_congr fun field _ => ?_
  cases field.2 <;> rfl

/-- The line for a field. -/
def fieldLine (level : Nat) (field : String × Value) : String :=
  attributeLine level (field.1, termOf field.2)

theorem attributesOf_eq (fields : List (String × Value)) :
    attributesOf fields = fields.map fun field => (field.1, termOf field.2) := by
  induction fields with
  | nil => rfl
  | cons field rest ih =>
    rw [attributesOf, ih]
    rfl

/-- A record is written as a set with a line for each of its fields that is not null. -/
theorem exists_record_lines (fields : List (String × Value)) (level : Nat) :
    ∃ sorted : List (String × Value), sorted.Perm (shownFields fields) ∧
      (termOf (.record fields)).write standardUnit level =
        setText level (sorted.map (fieldLine (level + 1))) := by
  let sorted := (shownFields fields).mergeSort fun v w => attributeLe (v.1, "") (w.1, "")
  have hshown : (attributesOf fields).filter (!·.2.isNull) =
      (shownFields fields).map fun field => (field.1, termOf field.2) := by
    rw [attributesOf_eq, List.filter_map, shownFields_eq]
    rfl
  have hsorted : sorted.map (fun field => (field.1, termOf field.2)) =
      ((shownFields fields).map fun field => (field.1, termOf field.2)).mergeSort fun v w =>
        attributeLe (v.1, "") (w.1, "") :=
    List.map_mergeSort fun _ _ _ _ => rfl
  refine ⟨sorted, List.mergeSort_perm _ _, ?_⟩
  rw [termOf, write_set_sorted, hshown, ← hsorted, List.map_map]
  rfl

/-- The default of an option is a record, written as a set with lines for some fields. -/
def RecordWritten (t : Term) (fields : List (String × Value)) : Prop :=
  ∃ behind, t = .raw ("mkOption \x7b\n      default = " ++
    setText (optionLevel + 1) (fields.map (fieldLine (optionLevel + 2))) ++ ";\n" ++ behind)

variable {s : Setting} {category : Option String} {fields : List (String × Value)}

theorem settingTerm_record_iff (htarget : s.target = .attrs) (hname : s.name ≠ enableName)
    (hdefault : s.default = some (.record fields)) {t : Term} : settingTerm s category = .ok t ↔
      (Value.record fields).isWritable = true ∧
        .raw (optionText
          (("default", termOf (.record fields)) :: (describing s ++ [("type", .raw "types.attrs")]))) = t := by
  have htype : optionType s = .ok (.raw "types.attrs") := by
    rw [optionType, htarget]
    rfl
  have hattribute (default : List (String × Term)) : defaultAttribute s = .ok default ↔
      (Value.record fields).isWritable = true ∧ [("default", termOf (.record fields))] = default := by
    have hterm : optionDefault s.target (.record fields) = writableTerm (.record fields) := by
      rw [htarget]
      rfl
    rw [defaultAttribute, hdefault]
    simp only [hterm, bind_eq_ok, writableTerm_eq_ok_iff, pure_eq_ok]
    constructor
    · rintro ⟨_, ⟨hwritable, rfl⟩, h⟩
      exact ⟨hwritable, h⟩
    · rintro ⟨hwritable, h⟩
      exact ⟨_, ⟨hwritable, rfl⟩, h⟩
  rw [settingTerm_eq_ok_iff hname]
  constructor
  · rintro ⟨type, default, htype', hdefault', rfl⟩
    cases htype.symm.trans htype'
    obtain ⟨hwritable, rfl⟩ := (hattribute default).1 hdefault'
    exact ⟨hwritable, by rw [List.append_assoc]; rfl⟩
  · rintro ⟨hwritable, rfl⟩
    exact ⟨_, _, htype, (hattribute _).2 ⟨hwritable, rfl⟩, by rw [List.append_assoc]; rfl⟩

/-- An option with a record for its default is written with the lines of its fields. -/
theorem exists_recordWritten (htarget : s.target = .attrs) (hname : s.name ≠ enableName)
    (hdefault : s.default = some (.record fields)) {t : Term} (h : settingTerm s category = .ok t) :
    ∃ sorted : List (String × Value), sorted.Perm (shownFields fields) ∧ RecordWritten t sorted := by
  obtain ⟨-, rfl⟩ := (settingTerm_record_iff htarget hname hdefault).1 h
  obtain ⟨sorted, hperm, hlines⟩ := exists_record_lines fields (optionLevel + 1)
  obtain ⟨behind, hbehind⟩ :=
    exists_optionText_default (termOf (.record fields)) (describing s ++ [("type", .raw "types.attrs")])
  exact ⟨sorted, hperm, behind, by rw [hbehind, hlines]⟩

/-- **Records as defaults.** An option with a record for its default is written unless an integer in the
record has too many digits. The record is written as a set with one line for each field that is not null,
and the names on these lines keep the keys exactly if every key is spelled like an identifier. -/
theorem record_default_exact (htarget : s.target = .attrs) (hname : s.name ≠ enableName)
    (hdefault : s.default = some (.record fields)) (hdistinct : (keysOf fields).Nodup) :
    ((∃ t, settingTerm s category = .ok t) ↔ (Value.record fields).isWritable = true) ∧
    ∀ t, settingTerm s category = .ok t →
      ∃ sorted : List (String × Value), sorted.Perm (shownFields fields) ∧ RecordWritten t sorted ∧
        (NamesKeep ((keysOf sorted).map identifierText) (keysOf sorted) ↔
          ∀ key ∈ keysOf (shownFields fields), IsOwnName key) := by
  refine ⟨?_, fun t ht => ?_⟩
  · simp only [settingTerm_record_iff htarget hname hdefault]
    exact ⟨fun ⟨_, hwritable, _⟩ => hwritable, fun hwritable => ⟨_, hwritable, rfl⟩⟩
  · obtain ⟨sorted, hperm, hwritten⟩ := exists_recordWritten htarget hname hdefault ht
    have hkeys : (keysOf sorted).Perm (keysOf (shownFields fields)) := hperm.map _
    have hshown : (keysOf (shownFields fields)).Nodup :=
      hdistinct.sublist (List.filter_sublist.map _)
    refine ⟨sorted, hperm, hwritten, ?_⟩
    rw [namesKeep_iff (hkeys.nodup_iff.2 hshown)]
    exact forall_congr' fun key => by rw [hkeys.mem_iff]

/-- A setting with a record for its default. -/
def recordSetting (fields : List (String × Value)) : Setting :=
  ⟨"data", .attrs, none, some (.record fields), none, none, none, false, false⟩

/-- Fields with a word, a keyword and an acronym for their keys, and one that is not written. -/
def plainFields : List (String × Value) :=
  [("size", .integer 12), ("with", .truth true), ("baseURL", .text "x"), ("snake_case", .null)]

theorem plain_fields_kept :
    ∃ t sorted, settingTerm (recordSetting plainFields) none = .ok t ∧
      sorted.Perm (shownFields plainFields) ∧ RecordWritten t sorted ∧
      NamesKeep ((keysOf sorted).map identifierText) (keysOf sorted) := by
  obtain ⟨hwritten, hkept⟩ := @record_default_exact (recordSetting plainFields) none plainFields rfl
    (by decide) rfl (by decide)
  obtain ⟨t, ht⟩ := hwritten.2 (by decide)
  obtain ⟨sorted, hperm, hrecord, hiff⟩ := hkept t ht
  have hown : ∀ key ∈ ["size", "with", "baseURL"], IsOwnName key := by
    simp only [List.forall_mem_cons]
    exact ⟨isOwnName_of_identifier_eq (by decide) (by decide), .keyword (by decide),
      isOwnName_of_identifier_eq (by decide) (by decide), nofun⟩
  exact ⟨t, sorted, ht, hperm, hrecord, hiff.2 hown⟩

/-- A key with an underscore in it is written as another one. -/
theorem snake_case_key_lost :
    ∃ t, settingTerm (recordSetting [("snake_case", .integer 1)]) none = .ok t ∧
      RecordWritten t [("snake_case", .integer 1)] ∧
      fieldLine (optionLevel + 2) ("snake_case", .integer 1) = "        snakeCase = 1;" ∧
      ¬NamesKeep ["snakeCase"] ["snake_case"] := by
  obtain ⟨t, ht⟩ : ∃ t, settingTerm (recordSetting [("snake_case", .integer 1)]) none = .ok t :=
    ⟨_, (settingTerm_record_iff rfl (by decide) rfl).2 ⟨by decide, rfl⟩⟩
  obtain ⟨sorted, hperm, hwritten⟩ := exists_recordWritten rfl (by decide) rfl ht
  rw [List.perm_singleton.1 hperm] at hwritten
  refine ⟨t, ht, hwritten, by decide, fun h => ?_⟩
  obtain ⟨name, hname, hdenotes⟩ := (h.denoted "snake_case").2 (by decide)
  rw [List.mem_singleton.1 hname] at hdenotes
  exact absurd (hdenotes.eq_self (by decide)) (by decide)

end SettingsHarvest.Nix
