import Mathlib
import SettingsHarvest.Nix.Identifier

/-! Attribute names that are made into attribute names once more.

A set writes `identifier` of the names it holds, and those already are identifiers. Mostly that changes
nothing. An identifier with an underscore in front of a digit is taken apart and put together again,
though, and then capitals that stood for words of one letter are read as the rest of a longer word.
`settle` says what becomes of an identifier, and `identifier_identifier` that nothing else does. -/
namespace SettingsHarvest.Nix

/-! ### Characters -/

theorem isLower_eq (c : Char) : isLower c = c.isLower := by
  simp [isLower, Char.isLower, Char.le_def]

theorem isUpper_eq (c : Char) : isUpper c = c.isUpper := by
  simp [isUpper, Char.isUpper, Char.le_def]

/-- A character inside a word, not a capital. -/
def isSmall (c : Char) : Bool := isLower c || isNumeral c

theorem isUpper_eq_false_of_isNumeral {c : Char} (h : isNumeral c = true) : isUpper c = false := by
  simp only [isNumeral, isUpper, Char.le_def, UInt32.le_iff_toNat_le, Bool.and_eq_true,
    decide_eq_true_eq, Bool.and_eq_false_iff, decide_eq_false_iff_not] at h ⊢
  have h9 : ('9').val.toNat = 57 := rfl
  have hA : ('A').val.toNat = 65 := rfl
  omega

theorem isUpper_eq_false_of_isLower {c : Char} (h : isLower c = true) : isUpper c = false := by
  rw [isLower_eq] at h
  rw [isUpper_eq]
  exact Bool.eq_false_iff.2 (Char.not_isUpper_of_isLower h)

theorem isUpper_eq_false_of_isSmall {c : Char} (h : isSmall c = true) : isUpper c = false := by
  rcases Bool.or_eq_true_iff.1 h with h | h
  · exact isUpper_eq_false_of_isLower h
  · exact isUpper_eq_false_of_isNumeral h

theorem isSmall_of_isWordChar {c : Char} (h : isWordChar c = true) (hu : isUpper c = false) :
    isSmall c = true := by
  simpa [isWordChar, isSmall, hu] using h

theorem isWordChar_of_isSmall {c : Char} (h : isSmall c = true) : isWordChar c = true := by
  rcases Bool.or_eq_true_iff.1 h with h | h <;> simp [isWordChar, h]

theorem isWordChar_of_isUpper {c : Char} (h : isUpper c = true) : isWordChar c = true := by
  simp [isWordChar, h]

theorem isWordChar_of_isNumeral {c : Char} (h : isNumeral c = true) : isWordChar c = true := by
  simp [isWordChar, h]

theorem toLower_of_isUpper_eq_false {c : Char} (h : isUpper c = false) : c.toLower = c :=
  Char.toLower_eq_of_not_isUpper (by rw [← isUpper_eq, h]; decide)

theorem toLower_of_isSmall {c : Char} (h : isSmall c = true) : c.toLower = c :=
  toLower_of_isUpper_eq_false (isUpper_eq_false_of_isSmall h)

theorem isSmall_toLower {c : Char} (h : isWordChar c = true) : isSmall c.toLower = true := by
  cases hu : isUpper c with
  | false =>
    have hs := isSmall_of_isWordChar h hu
    rwa [toLower_of_isSmall hs]
  | true =>
    have ha : c.isAlpha = true := by rw [isUpper_eq] at hu; simp [Char.isAlpha, hu]
    rw [isSmall, isLower_eq, Char.isLower_toLower_eq_isAlpha, ha, Bool.true_or]

theorem isUpper_toUpper {c : Char} (h : isWordChar c = true) (hn : isNumeral c = false) :
    isUpper c.toUpper = true := by
  rw [isUpper_eq, Char.isUpper_toUpper_eq_isAlpha]
  simpa [isWordChar, hn, isLower_eq, isUpper_eq, Char.isAlpha, Bool.or_comm] using h

theorem toUpper_of_isUpper {c : Char} (h : isUpper c = true) : c.toUpper = c := by
  rw [isUpper_eq] at h
  exact Char.toUpper_eq_of_not_isLower (Char.not_isLower_of_isUpper h)

/-! ### Cutting in one pass -/

/-- Whether a word ends between two characters, seen together with the one behind them. -/
def endsBetween (a b : Char) (next : Option Char) : Bool :=
  (isSmall a && isUpper b) || (isUpper a && isUpper b && next.any isLower)

/-- All cuts behind a character at once. -/
def cutBehind (a : Char) : List Char → List Char
  | [] => []
  | b :: rest =>
    if endsBetween a b rest.head? then ' ' :: b :: cutBehind b rest else b :: cutBehind b rest

theorem splitBeforeCapital_cons (a : Char) (s : List Char) :
    splitBeforeCapital (a :: s) = a ::
      if isSmall a && s.head?.any isUpper then ' ' :: splitBeforeCapital s
      else splitBeforeCapital s := by
  cases s with
  | nil => simp [splitBeforeCapital]
  | cons b rest =>
    simp only [splitBeforeCapital, List.head?_cons, Option.any_some, isSmall]
    exact (apply_ite (a :: ·) _ _ _).symm

theorem splitAcronym_cons (a : Char) (s : List Char) :
    splitAcronym (a :: s) = a ::
      if isUpper a && s.head?.any isUpper && s.tail.head?.any isLower then ' ' :: splitAcronym s
      else splitAcronym s := by
  rcases s with _ | ⟨b, _ | ⟨c, rest⟩⟩
  · simp [splitAcronym]
  · simp [splitAcronym]
  · simp only [splitAcronym, List.head?_cons, List.tail_cons, Option.any_some]
    exact (apply_ite (a :: ·) _ _ _).symm

theorem splitAcronym_cons_of_isUpper_eq_false {a : Char} (h : isUpper a = false) (s : List Char) :
    splitAcronym (a :: s) = a :: splitAcronym s := by
  rw [splitAcronym_cons, h]
  rfl

/-- Both cuts are made in one pass: the first one changes nothing that the second one looks at. -/
theorem splitAcronym_splitBeforeCapital (a : Char) (s : List Char) :
    splitAcronym (splitBeforeCapital (a :: s)) = a :: cutBehind a s := by
  induction s generalizing a with
  | nil => rfl
  | cons b rest ih =>
    have ih := ih b
    rw [splitBeforeCapital_cons a, List.head?_cons, Option.any_some, cutBehind]
    by_cases hsmall : (isSmall a && isUpper b) = true
    · obtain ⟨ha, _⟩ := Bool.and_eq_true_iff.1 hsmall
      rw [if_pos hsmall, splitAcronym_cons_of_isUpper_eq_false (isUpper_eq_false_of_isSmall ha),
        splitAcronym_cons_of_isUpper_eq_false (by decide), ih, if_pos (by simp [endsBetween, hsmall])]
    · rw [if_neg hsmall, splitAcronym_cons, ih]
      have hseen : (isUpper a && (splitBeforeCapital (b :: rest)).head?.any isUpper &&
          (splitBeforeCapital (b :: rest)).tail.head?.any isLower) = endsBetween a b rest.head? := by
        rw [splitBeforeCapital_cons b, endsBetween, Bool.eq_false_iff.2 hsmall, Bool.false_or,
          List.head?_cons, List.tail_cons, Option.any_some]
        cases hb : isUpper b with
        | false => simp
        | true =>
          have hnot : isSmall b = false := by
            cases hs : isSmall b with
            | false => rfl
            | true => rw [isUpper_eq_false_of_isSmall hs] at hb; cases hb
          have hhead : (splitBeforeCapital rest).head? = rest.head? := by
            cases rest with
            | nil => rfl
            | cons c rest => rw [splitBeforeCapital_cons]; rfl
          rw [hnot, Bool.false_and, if_neg (by decide), hhead]
      rw [hseen]

/-! ### Camel case in one pass -/

/-- Where in a text the next word stands. -/
inductive Spot where
  /-- In front of the first word. -/
  | start
  /-- Behind a word and something else. -/
  | between
  /-- Inside a word. -/
  | inside

/-- The words of a text, joined in camel case. -/
def joined : Spot → List Char → List Char
  | _, [] => []
  | spot, c :: rest =>
    if isWordChar c then
      (match spot with
        | .between => if isNumeral c then ['_', c.toLower] else [c.toUpper]
        | .start | .inside => [c.toLower]) ++ joined .inside rest
    else joined (match spot with | .start => .start | .between | .inside => .between) rest

/-- The words between the other characters of a text. -/
def runs (s : List Char) : List (List Char) := s.splitOnP (!isWordChar ·)

theorem runs_cons (c : Char) (s : List Char) :
    runs (c :: s) = if isWordChar c then (runs s).modifyHead (c :: ·) else [] :: runs s := by
  rw [runs, List.splitOnP_cons_eq_if_modifyHead]
  cases isWordChar c <;> rfl

theorem laterWord_cons (c : Char) (s : List Char) :
    laterWord (c :: s) =
      (if isNumeral c then ['_', c.toLower] else [c.toUpper]) ++ s.map Char.toLower := by
  rw [laterWord]
  split <;> rfl

/-- A text as camel case takes it apart, read from each of the three spots. -/
theorem joined_eq (s : List Char) : ∃ word others, runs s = word :: others ∧
    joined .inside s = word.map Char.toLower ++
      ((others.filter (!·.isEmpty)).map laterWord).flatten ∧
    joined .between s = (((word :: others).filter (!·.isEmpty)).map laterWord).flatten ∧
    joined .start s = match (word :: others).filter (!·.isEmpty) with
      | [] => []
      | first :: rest => first.map Char.toLower ++ (rest.map laterWord).flatten := by
  induction s with
  | nil => exact ⟨[], [], rfl, rfl, rfl, rfl⟩
  | cons c s ih =>
    obtain ⟨word, others, hruns, hinside, hbetween, hstart⟩ := ih
    rw [runs_cons, hruns]
    cases hc : isWordChar c with
    | true =>
      refine ⟨c :: word, others, rfl, ?_, ?_, ?_⟩
      · simp [joined, hc, hinside]
      · simp [joined, hc, hinside, laterWord_cons]
      · simp [joined, hc, hinside]
    | false =>
      refine ⟨[], word :: others, rfl, ?_, ?_, ?_⟩
      · simp [joined, hc, hbetween]
      · simp [joined, hc, hbetween]
      · simp [joined, hc, hstart]

theorem camelCase_eq (s : List Char) :
    camelCase s = joined .start (splitAcronym (splitBeforeCapital s)) := by
  obtain ⟨word, others, hruns, -, -, hstart⟩ := joined_eq (splitAcronym (splitBeforeCapital s))
  rw [hstart, ← hruns]
  rfl

/-! ### What camel case makes -/

/-- Texts of letters, digits, and underscores that tie a digit to what is in front of it. -/
inductive Tied : List Char → Prop where
  | nil : Tied []
  | letter {c : Char} {rest : List Char} : isWordChar c = true → Tied rest → Tied (c :: rest)
  | digit {c : Char} {rest : List Char} : isNumeral c = true → Tied rest → Tied ('_' :: c :: rest)

/-- Texts in camel case. -/
inductive InCamelCase : List Char → Prop where
  | nil : InCamelCase []
  | word {c : Char} {rest : List Char} : isSmall c = true → Tied rest → InCamelCase (c :: rest)

theorem tied_joined (s : List Char) : Tied (joined .inside s) ∧ Tied (joined .between s) := by
  induction s with
  | nil => exact ⟨.nil, .nil⟩
  | cons c rest ih =>
    obtain ⟨hinside, hbetween⟩ := ih
    cases hc : isWordChar c with
    | false => simp only [joined, hc, Bool.false_eq_true, if_false]; exact ⟨hbetween, hbetween⟩
    | true =>
      simp only [joined, hc, if_true]
      refine ⟨.letter (isWordChar_of_isSmall (isSmall_toLower hc)) hinside, ?_⟩
      cases hn : isNumeral c with
      | true =>
        have hlow : c.toLower = c := toLower_of_isSmall (by simp [isSmall, hn])
        rw [hlow]
        exact .digit hn hinside
      | false => exact .letter (isWordChar_of_isUpper (isUpper_toUpper hc hn)) hinside

theorem inCamelCase_joined (s : List Char) : InCamelCase (joined .start s) := by
  induction s with
  | nil => exact .nil
  | cons c rest ih =>
    cases hc : isWordChar c with
    | false => simpa only [joined, hc, Bool.false_eq_true, if_false] using ih
    | true =>
      simp only [joined, hc, if_true]
      exact .word (isSmall_toLower hc) (tied_joined rest).1

theorem inCamelCase_camelCase (s : List Char) : InCamelCase (camelCase s) := by
  rw [camelCase_eq]
  exact inCamelCase_joined _

/-! ### Camel case made of camel case -/

/-- Capitals behind capitals made small, unless a small letter behind them makes them start a word. -/
def fuse (behindCapital : Bool) : List Char → List Char
  | [] => []
  | c :: rest =>
    (if isUpper c && behindCapital && !(rest.head?.any isLower) then c.toLower else c) ::
      fuse (isUpper c) rest

theorem joined_cutBehind {a : Char} (ha : isWordChar a = true) {s : List Char} (h : Tied s) :
    joined .inside (cutBehind a s) = fuse (isUpper a) s := by
  induction h generalizing a with
  | nil => rfl
  | @letter b rest hb _ ih =>
    rw [cutBehind, fuse]
    cases hcut : endsBetween a b rest.head? with
    | true =>
      have hup : isUpper b = true := by
        simp only [endsBetween, Bool.or_eq_true, Bool.and_eq_true] at hcut
        rcases hcut with ⟨_, hup⟩ | ⟨⟨_, hup⟩, _⟩ <;> exact hup
      have hkeep : (isUpper b && isUpper a && !(rest.head?.any isLower)) = false := by
        simp only [endsBetween, Bool.or_eq_true, Bool.and_eq_true] at hcut
        rcases hcut with ⟨hsmall, _⟩ | ⟨_, hlow⟩
        · simp [isUpper_eq_false_of_isSmall hsmall]
        · simp [hlow]
      have hn : isNumeral b = false := by
        cases hn : isNumeral b with
        | false => rfl
        | true => rw [isUpper_eq_false_of_isNumeral hn] at hup; cases hup
      have hspace : isWordChar ' ' = false := by decide
      rw [if_pos rfl, hkeep, ← ih hb]
      simp [joined, hspace, hb, hn, toUpper_of_isUpper hup]
    | false =>
      rw [if_neg (by decide), ← ih hb]
      have hlow : b.toLower =
          if isUpper b && isUpper a && !(rest.head?.any isLower) then b.toLower else b := by
        cases hup : isUpper b with
        | false => simp [toLower_of_isUpper_eq_false hup]
        | true =>
          simp only [endsBetween, hup, Bool.and_true, Bool.or_eq_false_iff] at hcut
          obtain ⟨hsmall, hnext⟩ := hcut
          have hua : isUpper a = true := by
            cases hua : isUpper a with
            | true => rfl
            | false => rw [isSmall_of_isWordChar ha hua] at hsmall; cases hsmall
          rw [hua, Bool.true_and] at hnext
          simp [hua, hnext]
      rw [← hlow]
      simp [joined, hb]
  | @digit n rest hn _ ih =>
    have hup : isUpper n = false := isUpper_eq_false_of_isNumeral hn
    have hword : isWordChar n = true := isWordChar_of_isNumeral hn
    have hunder : isWordChar '_' = false ∧ isUpper '_' = false := by decide
    have hlow : n.toLower = n := toLower_of_isUpper_eq_false hup
    have hrest : joined .inside (cutBehind n rest) = fuse false rest := by rw [ih hword, hup]
    rw [cutBehind, if_neg (by simp [endsBetween, hunder.2]), cutBehind,
      if_neg (by simp [endsBetween, hup])]
    simp [joined, fuse, hunder, hword, hn, hup, hlow, hrest]

theorem camelCase_camelCase {s : List Char} (h : InCamelCase s) : camelCase s = fuse false s := by
  rw [camelCase_eq]
  cases h with
  | nil => rfl
  | @word c rest hc hrest =>
    have hword : isWordChar c = true := isWordChar_of_isSmall hc
    have hup : isUpper c = false := isUpper_eq_false_of_isSmall hc
    rw [splitAcronym_splitBeforeCapital]
    simp [joined, hword, fuse, hup, joined_cutBehind hword hrest, toLower_of_isSmall hc]

/-- Where no capitals stand side by side, nothing is fused. -/
theorem fuse_of_no_acronym {s : List Char} (h : hasAcronym s = false) : fuse false s = s := by
  have step (a : Char) (s : List Char) (h : hasAcronym (a :: s) = false) : fuse (isUpper a) s = s := by
    induction s generalizing a with
    | nil => rfl
    | cons b rest ih =>
      simp only [hasAcronym, Bool.or_eq_false_iff] at h
      rw [fuse, ih b h.2, Bool.and_comm (isUpper b), h.1]
      rfl
  cases s with
  | nil => rfl
  | cons a rest => rw [fuse, step a rest h]; simp

theorem head?_fuse_false (s : List Char) : (fuse false s).head? = s.head? := by
  cases s with
  | nil => rfl
  | cons a rest => simp [fuse]

theorem mem_fuse_underscore {s : List Char} (behind : Bool) (h : '_' ∈ s) : '_' ∈ fuse behind s := by
  induction s generalizing behind with
  | nil => exact h
  | cons c rest ih =>
    rw [fuse, List.mem_cons]
    rcases List.mem_cons.1 h with rfl | h
    · exact Or.inl rfl
    · exact Or.inr (ih _ h)

/-! ### Bodies -/

/-- What is left of a name without parentheses, other characters and spare underscores. -/
def nameBody (name : List Char) : List Char :=
  squeeze (trimUnderscores
    ((dropParentheses (.plain []) name).map fun c => if isNameChar c then c else '_'))

/-- How a body is spelled. -/
def spelling (body : List Char) : List Char :=
  if hasAcronym body && !body.contains '_' then body else camelCase body

/-- A name in quotes if it is a keyword. -/
def quotedKeyword (s : List Char) : List Char :=
  if keywords.contains (String.ofList s) then '"' :: s ++ ['"'] else s

theorem identifier_eq (name : List Char) :
    identifier name =
      if (name.head? == some '_' && name.getLast? != some '_') &&
          startsName (spelling (nameBody name)) then
        '_' :: spelling (nameBody name)
      else quotedKeyword <|
        if startsName (nameBody name) && startsName (spelling (nameBody name)) then
          spelling (nameBody name)
        else '_' :: spelling (nameBody name) := rfl

theorem squeeze_cons {c : Char} {s : List Char} (h : c = '_' → s.head? ≠ some '_') :
    squeeze (c :: s) = c :: squeeze s := by
  rw [squeeze]
  rintro rest rfl rfl
  exact h rfl rfl

theorem mem_squeeze {c : Char} {s : List Char} (h : c ∈ squeeze s) : c ∈ s := by
  fun_induction squeeze s with
  | case1 rest ih => exact List.mem_cons_of_mem _ (ih h)
  | case2 d rest _ ih =>
    rcases List.mem_cons.1 h with rfl | h
    · exact List.mem_cons_self
    · exact List.mem_cons_of_mem _ (ih h)
  | case3 => exact h

theorem mem_trimUnderscores {c : Char} {s : List Char} (h : c ∈ trimUnderscores s) : c ∈ s := by
  simp only [trimUnderscores, List.mem_reverse] at h
  have h := (List.dropWhile_sublist _).mem h
  exact (List.dropWhile_sublist _).mem (List.mem_reverse.1 h)

theorem isNameChar_of_mem_nameBody {name : List Char} {c : Char} (h : c ∈ nameBody name) :
    isNameChar c = true := by
  obtain ⟨d, -, rfl⟩ := List.mem_map.1 (mem_trimUnderscores (mem_squeeze h))
  split
  · assumption
  · decide

theorem isNameChar_of_isWordChar {c : Char} (h : isWordChar c = true) : isNameChar c = true := by
  simp [isNameChar, h]

theorem not_isSpace_of_isNameChar {c : Char} (h : isNameChar c = true) : Text.isSpace c = false := by
  have hrange : 0x27 ≤ c.toNat ∧ c.toNat ≤ 0x7a := by
    simp only [isNameChar, isWordChar, isLower, isUpper, isNumeral, Char.le_def,
      UInt32.le_iff_toNat_le, Bool.or_eq_true, Bool.and_eq_true, decide_eq_true_eq, beq_iff_eq] at h
    have hz : ('z').val.toNat = 0x7a := rfl
    have hZ : ('Z').val.toNat = 0x5a := rfl
    have h9 : ('9').val.toNat = 0x39 := rfl
    have ha : ('a').val.toNat = 0x61 := rfl
    have hA : ('A').val.toNat = 0x41 := rfl
    have h0 : ('0').val.toNat = 0x30 := rfl
    rcases h with ((((h | h) | h) | rfl) | rfl) | rfl
    · exact ⟨by show _ ≤ c.val.toNat; omega, by show c.val.toNat ≤ _; omega⟩
    · exact ⟨by show _ ≤ c.val.toNat; omega, by show c.val.toNat ≤ _; omega⟩
    · exact ⟨by show _ ≤ c.val.toNat; omega, by show c.val.toNat ≤ _; omega⟩
    · decide
    · decide
    · decide
  simp only [Text.isSpace, Bool.or_eq_false_iff, Bool.and_eq_false_iff, decide_eq_false_iff_not,
    beq_eq_false_iff_ne]
  omega

/-- A name made of characters of names has nothing that is dropped. -/
theorem dropParentheses_of_isNameChar {s : List Char} (h : ∀ c ∈ s, isNameChar c = true) :
    dropParentheses (.plain []) s = s := by
  induction s with
  | nil => rfl
  | cons c rest ih =>
    have hc := h c List.mem_cons_self
    have hopen : c ≠ '(' := by rintro rfl; exact absurd hc (by decide)
    rw [dropParentheses, not_isSpace_of_isNameChar hc, if_neg (by decide), if_neg (by simp [hopen]),
      ih fun d hd => h d (List.mem_cons_of_mem _ hd)]
    rfl

theorem map_isNameChar {s : List Char} (h : ∀ c ∈ s, isNameChar c = true) :
    (s.map fun c => if isNameChar c then c else '_') = s := by
  rw [List.map_congr_left fun c hc => if_pos (h c hc), List.map_id']

theorem dropWhile_underscore {s : List Char} (h : s.head? ≠ some '_') :
    s.dropWhile (· == '_') = s := by
  cases s with
  | nil => rfl
  | cons c rest => rw [List.dropWhile_cons_of_neg (by simpa using h)]

/-- Texts that bodies are spelled as. -/
structure IsSpelling (s : List Char) : Prop where
  nameChars : ∀ c ∈ s, isNameChar c = true
  head : s.head? ≠ some '_'
  last : s.getLast? ≠ some '_'
  single : squeeze s = s
  /-- They are in camel case, unless they are kept for their capitals. -/
  form : InCamelCase s ∨ hasAcronym s = true ∧ '_' ∉ s

theorem trimUnderscores_of_isSpelling {s : List Char} (h : IsSpelling s) : trimUnderscores s = s := by
  rw [trimUnderscores, dropWhile_underscore h.head, dropWhile_underscore, List.reverse_reverse]
  rw [List.head?_reverse]
  exact h.last

theorem nameBody_of_isSpelling {s : List Char} (h : IsSpelling s) : nameBody s = s := by
  rw [nameBody, dropParentheses_of_isNameChar h.nameChars, map_isNameChar h.nameChars,
    trimUnderscores_of_isSpelling h, h.single]

theorem nameBody_underscore {s : List Char} (h : IsSpelling s) : nameBody ('_' :: s) = s := by
  have hchars : ∀ c ∈ '_' :: s, isNameChar c = true := by
    simpa using ⟨by decide, h.nameChars⟩
  have htrim : trimUnderscores ('_' :: s) = trimUnderscores s := rfl
  rw [nameBody, dropParentheses_of_isNameChar hchars, map_isNameChar hchars, htrim,
    trimUnderscores_of_isSpelling h, h.single]

/-! ### Spellings -/

theorem Tied.isNameChar {s : List Char} (h : Tied s) : ∀ c ∈ s, isNameChar c = true := by
  induction h with
  | nil => simp
  | letter hc _ ih => simpa [isNameChar_of_isWordChar hc] using ih
  | digit hc _ ih => simpa [isNameChar_of_isWordChar (isWordChar_of_isNumeral hc)] using ⟨by decide, ih⟩

theorem ne_underscore_of_isWordChar {c : Char} (h : isWordChar c = true) : c ≠ '_' := by
  rintro rfl
  exact absurd h (by decide)

theorem Tied.getLast? {s : List Char} (h : Tied s) : s.getLast? ≠ some '_' := by
  induction h with
  | nil => simp
  | @letter c rest hc _ ih =>
    cases rest with
    | nil => simpa using ne_underscore_of_isWordChar hc
    | cons d rest => rwa [List.getLast?_cons_cons]
  | @digit c rest hc _ ih =>
    rw [List.getLast?_cons_cons]
    cases rest with
    | nil => simpa using ne_underscore_of_isWordChar (isWordChar_of_isNumeral hc)
    | cons d rest => rwa [List.getLast?_cons_cons]

theorem Tied.squeeze {s : List Char} (h : Tied s) : squeeze s = s := by
  induction h with
  | nil => rfl
  | letter hc _ ih => rw [squeeze_cons fun h => absurd h (ne_underscore_of_isWordChar hc), ih]
  | @digit c rest hc _ ih =>
    have hne := ne_underscore_of_isWordChar (isWordChar_of_isNumeral hc)
    rw [squeeze_cons fun _ => by simpa using hne, squeeze_cons fun h => absurd h hne, ih]

theorem squeeze_of_not_mem {s : List Char} (h : '_' ∉ s) : squeeze s = s := by
  induction s with
  | nil => rfl
  | cons c rest ih =>
    obtain ⟨hc, hrest⟩ := not_or.1 (mt List.mem_cons.2 h)
    rw [squeeze_cons fun h => absurd h.symm hc, ih hrest]

theorem InCamelCase.isSpelling {s : List Char} (h : InCamelCase s) : IsSpelling s := by
  cases h with
  | nil => exact ⟨by simp, by simp, by simp, rfl, Or.inl .nil⟩
  | @word c rest hc hrest =>
    have hword := isWordChar_of_isSmall hc
    have htied : Tied (c :: rest) := .letter hword hrest
    exact ⟨htied.isNameChar, by simpa using ne_underscore_of_isWordChar hword, htied.getLast?,
      htied.squeeze, Or.inl (.word hc hrest)⟩

theorem isSpelling_spelling (name : List Char) : IsSpelling (spelling (nameBody name)) := by
  rw [spelling]
  split
  · next h =>
    simp only [Bool.and_eq_true, Bool.not_eq_true', List.contains_eq_mem, decide_eq_false_iff_not] at h
    obtain ⟨hacronym, hunder⟩ := h
    exact ⟨fun c => isNameChar_of_mem_nameBody, fun h => hunder (List.mem_of_head? h),
      fun h => hunder (List.mem_of_getLast? h), squeeze_of_not_mem hunder, Or.inr ⟨hacronym, hunder⟩⟩
  · exact (inCamelCase_camelCase _).isSpelling

/-- What becomes of a text that a body is spelled as when it is taken for a body. -/
def respelled (s : List Char) : List Char := if s.contains '_' then fuse false s else s

theorem spelling_of_isSpelling {s : List Char} (h : IsSpelling s) : spelling s = respelled s := by
  rw [spelling, respelled]
  rcases h.form with hcamel | ⟨hacronym, hunder⟩
  · rw [camelCase_camelCase hcamel]
    cases hc : s.contains '_' with
    | true => simp
    | false =>
      cases ha : hasAcronym s with
      | true => rfl
      | false => simp [fuse_of_no_acronym ha]
  · simp [hacronym, hunder]

theorem startsName_respelled (s : List Char) : startsName (respelled s) = startsName s := by
  rw [respelled]
  split
  · rw [startsName, head?_fuse_false]; rfl
  · rfl

/-! ### Identifiers of identifiers -/

/-- What an identifier is turned into. -/
def settle (s : List Char) : List Char := if s.tail.contains '_' then fuse false s else s

theorem not_keyword_of_underscore {s : List Char} (h : '_' ∈ s) :
    keywords.contains (String.ofList s) = false := by
  have hall : ∀ k ∈ keywords, '_' ∉ k.toList := by decide
  cases hk : keywords.contains (String.ofList s) with
  | false => rfl
  | true =>
    have hmem := hall _ (List.contains_iff_mem.1 hk)
    rw [String.toList_ofList] at hmem
    exact absurd h hmem

theorem quotedKeyword_of_underscore {s : List Char} (h : '_' ∈ s) : quotedKeyword s = s := by
  rw [quotedKeyword, not_keyword_of_underscore h]
  rfl

/-- A spelling behind an underscore keeps the underscore. -/
theorem identifier_underscore {s : List Char} (h : IsSpelling s) :
    identifier ('_' :: s) = settle ('_' :: s) := by
  have hsettle : settle ('_' :: s) = '_' :: respelled s := by
    rw [settle, respelled, List.tail_cons]
    split
    · rw [fuse, show isUpper '_' = false by decide]; rfl
    · rfl
  rw [hsettle, identifier_eq, nameBody_underscore h, spelling_of_isSpelling h, startsName_respelled]
  cases hs : startsName s with
  | true =>
    have hlast : ('_' :: s).getLast? ≠ some '_' := by
      cases s with
      | nil => simp [startsName] at hs
      | cons c rest => rw [List.getLast?_cons_cons]; exact h.last
    simp [hlast]
  | false => simp [quotedKeyword_of_underscore]

/-- A spelling that can start an attribute and is no keyword stays without an underscore in front. -/
theorem identifier_spelling {s : List Char} (h : IsSpelling s) (hs : startsName s = true)
    (hk : quotedKeyword s = s) : identifier s = settle s := by
  have htail : s.tail.contains '_' = s.contains '_' := by
    cases s with
    | nil => rfl
    | cons c rest =>
      have hc : c ≠ '_' := by simpa using h.head
      simp [hc.symm]
  have hsettle : settle s = respelled s := by rw [settle, respelled, htail]
  have hkey : quotedKeyword (respelled s) = respelled s := by
    rw [respelled]
    split
    · next hu => exact quotedKeyword_of_underscore (mem_fuse_underscore false (List.contains_iff_mem.1 hu))
    · exact hk
  rw [hsettle, identifier_eq, nameBody_of_isSpelling h, spelling_of_isSpelling h, startsName_respelled]
  simp [h.head, hs, hkey]

theorem identifier_keyword {k : String} (h : k ∈ keywords) :
    identifier ('"' :: k.toList ++ ['"']) = settle ('"' :: k.toList ++ ['"']) := by
  revert k
  decide

/-- An identifier is a spelling behind an underscore, or a spelling that can start an attribute, in quotes
if it is a keyword. -/
theorem identifier_cases (name : List Char) :
    identifier name = '_' :: spelling (nameBody name) ∨
      startsName (spelling (nameBody name)) = true ∧
        identifier name = quotedKeyword (spelling (nameBody name)) := by
  rw [identifier_eq]
  split
  · exact Or.inl rfl
  · split
    · next hboth => exact Or.inr ⟨(Bool.and_eq_true_iff.1 hboth).2, rfl⟩
    · exact Or.inl (quotedKeyword_of_underscore List.mem_cons_self)

/-- **Identifiers of identifiers.** The identifier of an identifier is what it settles to. -/
theorem identifier_identifier (name : List Char) :
    identifier (identifier name) = settle (identifier name) := by
  have h := isSpelling_spelling name
  rcases identifier_cases name with hid | ⟨hs, hid⟩
  · rw [hid]
    exact identifier_underscore h
  · rw [hid]
    generalize spelling (nameBody name) = s at h hs
    cases hk : keywords.contains (String.ofList s) with
    | true =>
      have hquoted : quotedKeyword s = '"' :: (String.ofList s).toList ++ ['"'] := by
        rw [quotedKeyword, if_pos hk, String.toList_ofList]
      rw [hquoted]
      exact identifier_keyword (List.contains_iff_mem.1 hk)
    | false =>
      have hkept : quotedKeyword s = s := by rw [quotedKeyword, hk]; rfl
      rw [hkept]
      exact identifier_spelling h hs hkept

end SettingsHarvest.Nix
