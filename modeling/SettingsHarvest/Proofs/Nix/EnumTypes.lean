import SettingsHarvest.Proofs.Nix.Numbers
import SettingsHarvest.Proofs.Nix.Options
import SettingsHarvest.Proofs.Nix.QuotedString

/-! Enumerations as the types of options.

The choices of an enumeration are written as the elements of a list, one behind the other. The Nix language
takes simple expressions there: literals, names, and anything in parentheses, but nothing with a sign in front
(`readElements`). So the list of an enumeration denotes its choices just if none of the integers among them is
negative (`enum_read_iff`). -/
namespace SettingsHarvest.Nix

/-! ### Tokens -/

/-- What the text of an expression is made of. -/
inductive Token where
  /-- A number, a text, or a truth value. -/
  | literal (v : Value)
  | word (name : List Char)
  | mark (c : Char)

/-- A word, unless it is the name of a truth value. -/
def wordToken (name : List Char) : Token :=
  if name == "true".toList then .literal (.truth true)
  else if name == "false".toList then .literal (.truth false)
  else .word name

theorem length_splitSign (cs : List Char) : (Numeral.splitSign cs).2.length ≤ cs.length := by
  unfold Numeral.splitSign
  split <;> simp

theorem length_readExponent (cs : List Char) : (readExponent cs).2.length ≤ cs.length := by
  cases cs with
  | nil => exact le_rfl
  | cons mark rest =>
    have hsign := length_splitSign rest
    obtain ⟨negative, digits, hsplit⟩ : ∃ negative digits, Numeral.splitSign rest = (negative, digits) :=
      ⟨_, _, rfl⟩
    have hdigits := (List.dropWhile_sublist (l := digits) Char.isDigit).length_le
    rw [hsplit] at hsign
    rw [readExponent, hsplit]
    dsimp only at hsign ⊢
    split
    · simp only [List.length_cons]
      omega
    · exact le_rfl

theorem length_readNumber {cs rest : List Char} {v : Value} (h : readNumber cs = some (v, rest)) :
    rest.length < cs.length := by
  have hsplit := congrArg List.length (List.takeWhile_append_dropWhile (p := Char.isDigit) (l := cs))
  rw [List.length_append] at hsplit
  unfold readNumber at h
  dsimp only at h
  split at h
  · cases h
  · next hwhole =>
    have hpos : 0 < (cs.takeWhile Char.isDigit).length := List.length_pos_iff.2 (by simpa using hwhole)
    split at h
    · next after hafter =>
      cases h
      have hexponent := length_readExponent (after.dropWhile Char.isDigit)
      have hdigits := (List.dropWhile_sublist (l := after) Char.isDigit).length_le
      rw [hafter, List.length_cons] at hsplit
      omega
    · cases h
      omega

/-- The tokens of a text, if all of its strings are closed and without gaps. -/
def tokens? (cs : List Char) : Option (List Token) :=
  match cs with
  | [] => some []
  | c :: rest =>
    if c == ' ' || c == '\n' then tokens? rest
    else if c == '"' then
      match h : readQuoted rest with
      | ⟨text, .closed after⟩ =>
        have := length_of_closed (congrArg QuotedReading.ending h)
        (tokens? after).map (.literal (.text (String.ofList text)) :: ·)
      | _ => none
    else if c.isDigit then
      match h : readNumber (c :: rest) with
      | some (v, after) =>
        have := Nat.le_of_lt_succ (length_readNumber h)
        (tokens? after).map (.literal v :: ·)
      | none => none
    else if isLower c || isUpper c || c == '_' then
      have := (List.dropWhile_sublist (l := rest) isNameChar).length_le
      (tokens? (rest.dropWhile isNameChar)).map (wordToken (c :: rest.takeWhile isNameChar) :: ·)
    else (tokens? rest).map (.mark c :: ·)
termination_by cs.length

/-! ### Lists -/

/-- An open parenthesis: whether there is a sign in it, and the value behind that. -/
structure Parenthesis where
  negative : Bool
  value : Option Value

/-- The value of an expression in parentheses; only numbers have a sign. -/
def Parenthesis.close? (p : Parenthesis) : Option Value :=
  if p.negative then (p.value.filter Value.isNumber).map negated else p.value

/-- How far a list has been read: its elements, and the parentheses that are open, from the innermost one. -/
structure ListReading where
  elements : List Value
  opened : List Parenthesis

/-- Takes a simple expression into the list, or into a parenthesis that has none yet. -/
def ListReading.add? (r : ListReading) (v : Value) : Option ListReading :=
  match r.opened with
  | [] => some { r with elements := r.elements ++ [v] }
  | p :: outer =>
    if p.value.isNone then some { r with opened := { p with value := some v } :: outer } else none

/-- Reads the elements of a list up to its closing bracket. A sign stands in parentheses only. -/
def readElements : ListReading → List Token → Option (List Value)
  | r, [.mark ']'] => if r.opened.isEmpty then some r.elements else none
  | r, .literal v :: rest => (r.add? v).bind (readElements · rest)
  | r, .mark '(' :: rest => readElements { r with opened := ⟨false, none⟩ :: r.opened } rest
  | ⟨elements, p :: outer⟩, .mark '-' :: rest =>
    if p.value.isNone then readElements ⟨elements, { p with negative := !p.negative } :: outer⟩ rest
    else none
  | ⟨elements, p :: outer⟩, .mark ')' :: rest =>
    p.close?.bind fun v => (ListReading.add? ⟨elements, outer⟩ v).bind (readElements · rest)
  | _, _ => none

/-- The values that the type of an enumeration lists. -/
def readEnum? (text : String) : Option (List Value) :=
  match tokens? text.toList with
  | some (.word types :: .mark '.' :: .word enum :: .mark '[' :: rest) =>
    if types == "types".toList && enum == "enum".toList then readElements ⟨[], []⟩ rest else none
  | _ => none

-- A negative number would have to stand in parentheses.
example : readElements ⟨[], []⟩ [.mark '(', .mark '-', .literal (.integer 1), .mark ')', .mark ']'] =
    some [.integer (-1)] := rfl

example : readElements ⟨[], []⟩ [.mark '-', .literal (.integer 1), .mark ']'] = none := rfl

/-! ### Reading choices -/

/-- What an enumeration is made of: truth values, integers, and texts without a line break. -/
def IsChoice : Value → Prop
  | .truth _ | .integer _ => True
  | .text s => '\n' ∉ s.toList
  | _ => False

/-- The text of a choice. -/
def choiceText (v : Value) : String := (termOf v).write standardUnit 0

/-- The tokens that a choice is written with. -/
def choiceTokens : Value → List Token
  | .integer n => if n < 0 then [.mark '-', .literal (.integer n.natAbs)] else [.literal (.integer n)]
  | v => [.literal v]

section Choices

variable {rest : List Char} {v : Value}

theorem toList_choiceText {s : String} (h : '\n' ∉ s.toList) :
    (choiceText (.text s)).toList = '"' :: escape s.toList ++ ['"'] := by
  have hline : s.toList.contains '\n' = false := by simpa using h
  show (String.ofList (stringLiteral false s.toList)).toList = _
  rw [String.toList_ofList, stringLiteral, hline]
  rfl

theorem tokens?_blank : tokens? (' ' :: rest) = tokens? rest := by
  rw [tokens?]
  rfl

theorem tokens?_word {c d : Char} {name : List Char} (rest : List Char)
    (hc : (c == ' ' || c == '\n' || c == '"' || c.isDigit) = false ∧
      (isLower c || isUpper c || c == '_') = true)
    (hname : ∀ b ∈ name, isNameChar b = true) (hd : isNameChar d = false) :
    tokens? (c :: name ++ d :: rest) = (tokens? (d :: rest)).map (wordToken (c :: name) :: ·) := by
  have htake : (name ++ d :: rest).takeWhile isNameChar = name := by
    rw [List.takeWhile_append_of_pos hname]
    simp [hd]
  have hdrop : (name ++ d :: rest).dropWhile isNameChar = d :: rest := by
    rw [List.dropWhile_append_of_pos hname]
    simp [hd]
  rw [Bool.or_eq_false_iff, Bool.or_eq_false_iff] at hc
  obtain ⟨⟨⟨hblank, hquote⟩, hdigit⟩, hstart⟩ := hc
  rw [List.cons_append, tokens?, if_neg (by simp [hblank]), if_neg (by simp [hquote]),
    if_neg (by simp [hdigit]), if_pos hstart, htake, hdrop]

theorem tokens?_digits {digits : List Char} (rest : List Char) (hdigits : ∀ c ∈ digits, c.isDigit = true)
    (hne : digits ≠ []) : tokens? (digits ++ ' ' :: rest) =
      (tokens? rest).map (.literal (.integer (digitsNumber digits)) :: ·) := by
  obtain ⟨c, others, rfl⟩ := List.exists_cons_of_ne_nil hne
  have hc : c.isDigit = true := hdigits c List.mem_cons_self
  have hends : EndsDigits (' ' :: rest) := by
    rintro _ ⟨⟩
    rfl
  have hread := readNumber_integer hdigits hne hends (by simp)
  have hnot {d : Char} (hd : d.isDigit = false) : (c == d) = false := by
    rw [beq_eq_false_iff_ne]
    rintro rfl
    rw [hd] at hc
    cases hc
  rw [List.cons_append, tokens?, if_neg (by simp only [hnot (d := ' ') rfl, hnot (d := '\n') rfl]; decide),
    if_neg (by rw [hnot rfl]; decide), if_pos hc]
  rw [List.cons_append] at hread
  split
  · next v after h =>
    cases h.symm.trans hread
    rw [tokens?_blank]
  · next h => cases h.symm.trans hread

theorem tokens?_quoted (s rest : List Char) :
    tokens? ('"' :: escape s ++ '"' :: ' ' :: rest) =
      (tokens? rest).map (.literal (.text (String.ofList s)) :: ·) := by
  rw [List.cons_append, tokens?, if_neg (by decide), if_pos (by decide)]
  split
  · next text after h =>
    rw [readQuoted_escape_closed] at h
    cases h
    rw [tokens?_blank]
  · next h => exact absurd (readQuoted_escape_closed s _) (h _ _)

theorem tokens?_mark {c : Char} (rest : List Char)
    (hc : (c == ' ' || c == '\n' || c == '"' || c.isDigit || (isLower c || isUpper c || c == '_')) = false) :
    tokens? (c :: rest) = (tokens? rest).map (.mark c :: ·) := by
  rw [Bool.or_eq_false_iff, Bool.or_eq_false_iff, Bool.or_eq_false_iff] at hc
  obtain ⟨⟨⟨hblank, hquote⟩, hdigit⟩, hstart⟩ := hc
  rw [tokens?, if_neg (by simp [hblank]), if_neg (by simp [hquote]), if_neg (by simp [hdigit]),
    if_neg (by simp [hstart])]

theorem tokens?_truth (b : Bool) (rest : List Char) :
    tokens? ((choiceText (.truth b)).toList ++ ' ' :: rest) =
      (tokens? rest).map (.literal (.truth b) :: ·) := by
  have hrue : ∀ d ∈ ['r', 'u', 'e'], isNameChar d = true := List.all_eq_true.1 (by decide)
  have halse : ∀ d ∈ ['a', 'l', 's', 'e'], isNameChar d = true := List.all_eq_true.1 (by decide)
  cases b with
  | true =>
    have hword := tokens?_word (c := 't') rest (by decide) hrue (by decide : isNameChar ' ' = false)
    rw [tokens?_blank] at hword
    exact hword
  | false =>
    have hword := tokens?_word (c := 'f') rest (by decide) halse (by decide : isNameChar ' ' = false)
    rw [tokens?_blank] at hword
    exact hword

theorem tokens?_integer (n : Int) (rest : List Char) :
    tokens? ((choiceText (.integer n)).toList ++ ' ' :: rest) =
      (tokens? rest).map (choiceTokens (.integer n) ++ ·) := by
  have hdigits := tokens?_digits rest (isDigit_toDigits (n := n.natAbs)) Nat.toDigits_ne_nil
  rw [digitsNumber_toDigits] at hdigits
  show tokens? ((Value.intText n).toList ++ ' ' :: rest) = _
  rw [Value.intText, String.toList_ofList, choiceTokens]
  split
  · rw [List.append_assoc, List.singleton_append, tokens?_mark _ (by decide), hdigits, Option.map_map]
    rfl
  · next hn =>
    rw [List.nil_append, hdigits, Int.natAbs_of_nonneg (not_lt.1 hn)]
    rfl

/-- A choice is cut off from what stands behind it by a blank. -/
theorem tokens?_choice (h : IsChoice v) (rest : List Char) :
    tokens? ((choiceText v).toList ++ ' ' :: rest) = (tokens? rest).map (choiceTokens v ++ ·) := by
  cases v with
  | truth b => exact tokens?_truth b rest
  | integer n => exact tokens?_integer n rest
  | text s =>
    have hquoted := tokens?_quoted s.toList rest
    rw [String.ofList_toList] at hquoted
    rw [toList_choiceText h, List.append_assoc, List.singleton_append, hquoted]
    rfl
  | null | decimal | list | record => cases h

/-- Choices one behind the other, and what stands behind them. -/
theorem tokens?_choices {choices : List Value} (h : ∀ v ∈ choices, IsChoice v) (rest : List Char) :
    tokens? ((" ".intercalate (choices.map choiceText)).toList ++ ' ' :: rest) =
      (tokens? rest).map (choices.flatMap choiceTokens ++ ·) := by
  induction choices with
  | nil =>
    show tokens? (' ' :: rest) = _
    rw [tokens?_blank]
    exact Option.map_id'.symm
  | cons v others ih =>
    obtain ⟨hv, hothers⟩ := List.forall_mem_cons.1 h
    cases others with
    | nil =>
      rw [List.map_singleton, String.intercalate_singleton, tokens?_choice hv, List.flatMap_singleton]
    | cons w more =>
      have hmore := ih hothers
      rw [List.map_cons] at hmore
      have hblank : " ".toList = [' '] := rfl
      rw [List.map_cons, List.map_cons, String.intercalate_cons_cons, String.toList_append,
        String.toList_append, hblank, List.append_assoc, List.append_assoc, List.singleton_append,
        tokens?_choice hv, hmore, Option.map_map, List.flatMap_cons]
      congr 1
      funext tokens
      exact (List.append_assoc _ _ _).symm

/-- No integer among values is negative. -/
def Unsigned (choices : List Value) : Prop := ∀ n, Value.integer n ∈ choices → 0 ≤ n

theorem readElements_literal {elements : List Value} {tokens : List Token} :
    readElements ⟨elements, []⟩ (.literal v :: tokens) = readElements ⟨elements ++ [v], []⟩ tokens := by
  rw [readElements]
  rfl

/-- Elements are read as the choices they are written for, if none of them has a sign. -/
theorem readElements_choices (choices elements : List Value) :
    readElements ⟨elements, []⟩ (choices.flatMap choiceTokens ++ [.mark ']']) = some (elements ++ choices) ↔
      Unsigned choices := by
  induction choices generalizing elements with
  | nil => simp [readElements, Unsigned]
  | cons v others ih =>
    have hplain (hv : choiceTokens v = [.literal v]) :
        readElements ⟨elements, []⟩ ((v :: others).flatMap choiceTokens ++ [.mark ']']) =
          some (elements ++ v :: others) ↔ Unsigned others := by
      have hbehind := ih (elements ++ [v])
      rw [List.append_assoc, List.singleton_append] at hbehind
      rw [List.flatMap_cons, hv, List.append_assoc, List.singleton_append, readElements_literal, hbehind]
    have hsplit : Unsigned (v :: others) ↔ (∀ n, v = .integer n → 0 ≤ n) ∧ Unsigned others := by
      unfold Unsigned
      simp only [List.mem_cons, or_imp, forall_and, eq_comm (b := v)]
    rw [hsplit]
    cases v with
    | integer n =>
      rcases lt_or_ge n 0 with hn | hn
      · refine iff_of_false ?_ fun h => absurd (h.1 n rfl) (not_le.2 hn)
        rw [List.flatMap_cons, choiceTokens, if_pos hn]
        simp [readElements]
      · rw [hplain (by rw [choiceTokens, if_neg (not_lt.2 hn)])]
        simp [hn]
    | null | truth | decimal | text | list | record =>
      rw [hplain rfl]
      simp

/-- What an enumeration is written as, in tokens. -/
theorem tokens?_enumText {choices : List Value} (h : ∀ v ∈ choices, IsChoice v) :
    tokens? (enumText (choices.map choiceText)).toList =
      some (.word "types".toList :: .mark '.' :: .word "enum".toList :: .mark '[' ::
        (choices.flatMap choiceTokens ++ [.mark ']'])) := by
  have hypes : ∀ d ∈ ['y', 'p', 'e', 's'], isNameChar d = true := List.all_eq_true.1 (by decide)
  have hnum : ∀ d ∈ ['n', 'u', 'm'], isNameChar d = true := List.all_eq_true.1 (by decide)
  have hchars : (enumText (choices.map choiceText)).toList =
      't' :: ['y', 'p', 'e', 's'] ++ '.' :: ('e' :: ['n', 'u', 'm'] ++ ' ' :: '[' :: ' ' ::
        ((" ".intercalate (choices.map choiceText)).toList ++ ' ' :: [']'])) := by
    rw [enumText, String.toList_append, String.toList_append, String.toList_append,
      show TargetType.enum.text.toList = ['t', 'y', 'p', 'e', 's', '.', 'e', 'n', 'u', 'm'] from rfl,
      show " [ ".toList = [' ', '[', ' '] from rfl, show " ]".toList = [' ', ']'] from rfl]
    simp
  rw [hchars, tokens?_word _ (by decide) hypes (by decide), tokens?_mark _ (by decide),
    tokens?_word _ (by decide) hnum (by decide), tokens?_blank, tokens?_mark _ (by decide), tokens?_blank,
    tokens?_choices h, tokens?_mark _ (by decide), tokens?]
  rfl

/-- **An enumeration is read as its choices just if none of them has a sign.** -/
theorem readEnum?_enumText {choices : List Value} (h : ∀ v ∈ choices, IsChoice v) :
    readEnum? (enumText (choices.map choiceText)) = some choices ↔ Unsigned choices := by
  rw [readEnum?, tokens?_enumText h]
  exact readElements_choices choices []

end Choices

/-! ### Enumerations -/

section Enumerations

variable {choices : List Value}

theorem choiceTexts_eq_ok_iff {texts : List String} : choiceTexts choices = .ok texts ↔
    (∀ v ∈ choices, v.isWritable = true) ∧ choices.map choiceText = texts := by
  unfold choiceTexts
  induction choices generalizing texts with
  | nil =>
    rw [List.mapM_nil, pure_eq_ok]
    simp
  | cons v others ih =>
    rw [List.mapM_cons, List.forall_mem_cons, List.map_cons, bind_eq_ok]
    simp only [bind_eq_ok, pure_eq_ok, writableTerm_eq_ok_iff, ih]
    constructor
    · rintro ⟨_, ⟨_, ⟨hv, rfl⟩, rfl⟩, _, ⟨hothers, rfl⟩, rfl⟩
      exact ⟨⟨hv, hothers⟩, rfl⟩
    · rintro ⟨⟨hv, hothers⟩, rfl⟩
      exact ⟨_, ⟨_, ⟨hv, rfl⟩, rfl⟩, _, ⟨hothers, rfl⟩, rfl⟩

theorem optionType_enum {s : Setting} (htarget : s.target = .enum) {type : Term} :
    optionType s = .ok type ↔ (∀ v ∈ s.choices.getD [], v.isWritable = true) ∧
      Term.raw (enumText ((s.choices.getD []).map choiceText)) = type := by
  rw [optionType, htarget]
  dsimp only
  simp only [bind_eq_ok, pure_eq_ok, choiceTexts_eq_ok_iff]
  constructor
  · rintro ⟨_, ⟨hwritable, rfl⟩, rfl⟩
    exact ⟨hwritable, rfl⟩
  · rintro ⟨hwritable, rfl⟩
    exact ⟨_, ⟨hwritable, rfl⟩, rfl⟩

theorem mem_escape {s : List Char} {c : Char} (h : c ∈ escape s) : c ∈ s ∨ c = '\\' := by
  fun_induction escape s with
  | case1 => exact .inl h
  | case2 | case3 | case4 => grind

theorem line_end_not_mem_choiceText {v : Value} (h : IsChoice v) : '\n' ∉ (choiceText v).toList := by
  cases v with
  | truth b => cases b <;> decide
  | integer n =>
    intro hmem
    exact absurd (isNumeric_intText n _ hmem) (by decide)
  | text s =>
    rw [toList_choiceText h, List.mem_append, List.mem_cons, List.mem_singleton]
    rintro ((hquote | hmem) | hquote)
    · exact absurd hquote (by decide)
    · rcases mem_escape hmem with hmem | hescape
      · exact h hmem
      · exact absurd hescape (by decide)
    · exact absurd hquote (by decide)
  | null | decimal | list | record => cases h

theorem mem_intercalate {texts : List String} {c : Char} (h : c ∈ (" ".intercalate texts).toList) :
    c = ' ' ∨ ∃ text ∈ texts, c ∈ text.toList := by
  induction texts with
  | nil => cases h
  | cons text rest ih =>
    cases rest with
    | nil =>
      rw [String.intercalate_singleton] at h
      exact .inr ⟨text, List.mem_singleton_self _, h⟩
    | cons next more =>
      rw [String.intercalate_cons_cons, String.toList_append, String.toList_append, List.mem_append,
        List.mem_append] at h
      rcases h with (h | h) | h
      · exact .inr ⟨text, List.mem_cons_self, h⟩
      · exact .inl (List.mem_singleton.1 h)
      · exact (ih h).imp_right fun hmore => hmore.imp fun t ht => ⟨List.mem_cons_of_mem _ ht.1, ht.2⟩

theorem line_end_not_mem_enumText (h : ∀ v ∈ choices, IsChoice v) :
    '\n' ∉ (enumText (choices.map choiceText)).toList := by
  rw [enumText, String.toList_append, String.toList_append, String.toList_append, List.mem_append,
    List.mem_append, List.mem_append]
  rintro (((hmem | hmem) | hmem) | hmem)
  · exact absurd hmem (by decide)
  · exact absurd hmem (by decide)
  · rcases mem_intercalate hmem with hblank | ⟨text, htext, hmem⟩
    · exact absurd hblank (by decide)
    · obtain ⟨v, hv, rfl⟩ := List.mem_map.1 htext
      exact line_end_not_mem_choiceText (h v hv) hmem
  · exact absurd hmem (by decide)

/-- The default of an enumeration is written if it is writable. -/
theorem exists_defaultAttribute_iff {s : Setting} (htarget : s.target = .enum) :
    (∃ default, defaultAttribute s = .ok default) ↔ ∀ v, s.default = some v → v.isWritable = true := by
  unfold defaultAttribute
  rw [htarget]
  cases s.default with
  | none => exact ⟨fun _ v hv => absurd hv (by simp), fun _ => ⟨[], rfl⟩⟩
  | some v =>
    have hdefault : (∃ d, optionDefault .enum v = .ok d) ↔ v.isWritable = true := by
      cases v with
      | null => exact ⟨fun _ => rfl, fun _ => ⟨_, rfl⟩⟩
      | truth | integer | decimal | text | list | record =>
        show (∃ d, writableTerm _ = .ok d) ↔ _
        simp only [writableTerm_eq_ok_iff, exists_and_left, exists_eq', and_true]
    simp only [Option.some_inj, forall_eq', ← hdefault, bind_eq_ok, pure_eq_ok]
    constructor
    · rintro ⟨_, d, hd, -⟩
      exact ⟨d, hd⟩
    · rintro ⟨d, hd⟩
      exact ⟨_, d, hd, rfl⟩

/-- What is read in the text of a setting. -/
theorem exists_enum_read_iff {s : Setting} (category : Option String) (hname : s.name ≠ enableName)
    (htarget : s.target = .enum) (hchoices : ∀ v ∈ s.choices.getD [], IsChoice v) :
    (∃ t text, settingTerm s category = .ok t ∧ TypeWritten t text ∧
      readEnum? text = some (s.choices.getD [])) ↔
        (∃ default, defaultAttribute s = .ok default) ∧ (∀ v ∈ s.choices.getD [], v.isWritable = true) ∧
          Unsigned (s.choices.getD []) := by
  have hwritten (text : String) : (∃ t, settingTerm s category = .ok t ∧ TypeWritten t text) ↔ _ :=
    exists_typeWritten_iff hname fun type htype => by
      obtain ⟨-, rfl⟩ := (optionType_enum htarget).1 htype
      exact line_end_not_mem_enumText hchoices
  rw [← readEnum?_enumText hchoices]
  constructor
  · rintro ⟨t, text, ht, htext, hread⟩
    obtain ⟨hdefault, type, htype, rfl⟩ := (hwritten text).1 ⟨t, ht, htext⟩
    obtain ⟨hwritable, rfl⟩ := (optionType_enum htarget).1 htype
    exact ⟨hdefault, hwritable, hread⟩
  · rintro ⟨hdefault, hwritable, hread⟩
    obtain ⟨t, ht, htext⟩ :=
      (hwritten _).2 ⟨hdefault, _, (optionType_enum htarget).2 ⟨hwritable, rfl⟩, rfl⟩
    exact ⟨t, _, ht, htext, hread⟩

/-- What it takes for the choices of an enumeration to be read back. -/
structure Listable (s : Setting) : Prop where
  unsigned : Unsigned (s.choices.getD [])
  writable : ∀ v ∈ s.choices.getD [], v.isWritable = true
  writable_default : ∀ v, s.default = some v → v.isWritable = true

/-- **The type of an enumeration lists its choices just if none of them has a sign.** -/
theorem enum_read_iff {s : Setting} (category : Option String) (hname : s.name ≠ enableName)
    (htarget : s.target = .enum) (hchoices : ∀ v ∈ s.choices.getD [], IsChoice v) :
    (∃ t text, settingTerm s category = .ok t ∧ TypeWritten t text ∧
      readEnum? text = some (s.choices.getD [])) ↔ Listable s := by
  rw [exists_enum_read_iff category hname htarget hchoices, exists_defaultAttribute_iff htarget]
  constructor
  · rintro ⟨hdefault, hwritable, hunsigned⟩
    exact ⟨hunsigned, hwritable, hdefault⟩
  · intro h
    exact ⟨h.writable_default, h.writable, h.unsigned⟩

/-- An enumeration of choices, without a default. -/
def enumSetting (name : String) (choices : List Value) : Setting :=
  ⟨name, .enum, none, none, some choices, none, none, false, false⟩

/-- Brackets and signs within a text are no marks of the list. -/
theorem mixed_choices_read : ∃ t text,
    settingTerm (enumSetting "mode" [.truth true, .integer 1, .text "- ] \"$\x7b"]) none = .ok t ∧
      TypeWritten t text ∧ readEnum? text = some [.truth true, .integer 1, .text "- ] \"$\x7b"] := by
  refine (enum_read_iff (s := enumSetting "mode" [.truth true, .integer 1, .text "- ] \"$\x7b"]) none
    (by decide) rfl ?_).2 ⟨?_, ?_, ?_⟩
  · show ∀ v ∈ [Value.truth true, .integer 1, .text "- ] \"$\x7b"], IsChoice v
    simp [IsChoice]
  · show Unsigned [Value.truth true, .integer 1, .text "- ] \"$\x7b"]
    simp [Unsigned]
  · decide
  · simp [enumSetting]

/-- A negative integer is no element of a list. -/
theorem negative_choice_unread : ¬∃ t text,
    settingTerm (enumSetting "mode" [.integer (-1), .integer 1]) none = .ok t ∧ TypeWritten t text ∧
      readEnum? text = some [.integer (-1), .integer 1] := by
  intro hread
  have hread := (exists_enum_read_iff (s := enumSetting "mode" [.integer (-1), .integer 1]) none (by decide)
    rfl (by
      show ∀ v ∈ [Value.integer (-1), .integer 1], IsChoice v
      simp [IsChoice])).1 hread
  exact absurd (hread.2.2 (-1) List.mem_cons_self) (by decide)

end Enumerations

end SettingsHarvest.Nix
