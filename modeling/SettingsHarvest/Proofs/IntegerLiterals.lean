import SettingsHarvest.Number.Literal
import SettingsHarvest.Proofs.Digits

/-! Ways to write an integer.

The source language writes a natural number in decimal digits, in base 16, 8 or 2 behind a prefix, with
bars between digits, with the suffix of big integers, and in two old ways behind zeros: in octal digits,
or in decimal ones among which there is an 8 or a 9 (`IntegerLiteral`). The ways overlap, so one lemma for
each kind of text says which of them `parse` takes it for. Every literal is read as the number it denotes,
with the one exception of decimal literals of more than 4300 digits (`integer_literal_read_iff`). -/
namespace SettingsHarvest.Numeral

/-! ### Writing -/

/-- The marks of the bases, in either case. -/
def baseMarks : List (Char × Nat) := [('x', 16), ('X', 16), ('o', 8), ('O', 8), ('b', 2), ('B', 2)]

/-- Nothing, or the mark of a big integer. -/
def suffixes : List (List Char) := [[], ['n']]

/-- Digits with single bars between some of them. -/
inductive Separated : List Char → List Char → Prop where
  | last (c : Char) : Separated [c] [c]
  | next (c : Char) {digits body : List Char} : Separated digits body →
      Separated (c :: digits) (c :: body)
  | bar (c : Char) {digits body : List Char} : Separated digits body →
      Separated (c :: digits) (c :: '_' :: body)

/-- A literal for a number: its base, its digits, and its text. -/
inductive IntegerLiteral (n : Nat) : Nat → List Char → List Char → Prop where
  | decimal {body suffix : List Char} : Separated (Nat.toDigits 10 n) body → suffix ∈ suffixes →
      IntegerLiteral n 10 (Nat.toDigits 10 n) (body ++ suffix)
  | based {mark : Char} {base : Nat} {digits body suffix : List Char} : (mark, base) ∈ baseMarks →
      Spells base digits n → Separated digits body → suffix ∈ suffixes →
      IntegerLiteral n base digits ('0' :: mark :: (body ++ suffix))
  | octal (zeros : Nat) : IntegerLiteral n 8 (List.replicate (zeros + 1) '0' ++ Nat.toDigits 8 n)
      (List.replicate (zeros + 1) '0' ++ Nat.toDigits 8 n)
  | leadingZeros {zeros : Nat} :
      ('8' ∈ Nat.toDigits 10 n ∨ '9' ∈ Nat.toDigits 10 n) →
      IntegerLiteral n 10 (List.replicate (zeros + 1) '0' ++ Nat.toDigits 10 n)
        (List.replicate (zeros + 1) '0' ++ Nat.toDigits 10 n)

theorem ne_bar {c : Char} (h : c.isAlphanum = true) : c ≠ '_' := by
  rintro rfl
  revert h
  decide

theorem filter_alphanum {digits : List Char} (h : ∀ c ∈ digits, c.isAlphanum = true) :
    digits.filter (· != '_') = digits :=
  List.filter_eq_self.2 fun c hc => bne_iff_ne.2 (ne_bar (h c hc))

/-- The bars between digits are dropped. -/
theorem Separated.filter {digits body : List Char} (h : Separated digits body)
    (hdigits : ∀ c ∈ digits, c.isAlphanum = true) : body.filter (· != '_') = digits := by
  induction h with
  | last c => exact filter_alphanum hdigits
  | next c _ ih | bar c _ ih =>
    obtain ⟨hc, hrest⟩ := List.forall_mem_cons.1 hdigits
    simp [ne_bar hc, ih hrest]

/-! ### Small letters -/

/-- Of the runs of capital letters, only the first one is ASCII. -/
theorem lowerChar_ascii {c : Char} (h : c.toNat < 0x80) : Text.lowerChar c = [c.toLower] := by
  have hlate : ∀ r ∈ Text.lowerRuns.tail, 0x80 ≤ r.first := by decide +kernel
  have htail : Text.lowerRuns.tail.findSome? (·.imageOf? c.toNat) = none := by
    refine List.findSome?_eq_none_iff.2 fun r hr => ?_
    have := hlate r hr
    simp [Text.CaseRun.imageOf?]
    omega
  have hexpansion : Text.lowerExpansions.find? (·.1 == c.toNat) = none := by
    simp [Text.lowerExpansions]
    omega
  have hruns : Text.lowerRuns = ⟨0x41, 0x5a, 1, 0x61⟩ :: Text.lowerRuns.tail := rfl
  have hlower : Text.lowerChar c =
      ((Text.lowerRuns.findSome? (·.imageOf? c.toNat)).map fun n => [Char.ofNat n]).getD [c] := by
    simp only [Text.lowerChar, Text.mapCase, hexpansion]
    cases Text.lowerRuns.findSome? (·.imageOf? c.toNat) <;> rfl
  rw [hlower, hruns, List.findSome?_cons, htail, Text.CaseRun.imageOf?]
  by_cases hupper : 0x41 ≤ c.toNat ∧ c.toNat ≤ 0x5a
  · have hall : ∀ n < 0x5b, 0x41 ≤ n → Char.ofNat (0x61 + (n - 0x41)) = (Char.ofNat n).toLower := by decide
    have hc := hall c.toNat (Nat.lt_succ_of_le hupper.2) hupper.1
    rw [Char.ofNat_toNat] at hc
    simp [hupper, hc, Nat.mod_one]
  · have hsame : c.toLower = c := dif_neg hupper
    simp [hupper, hsame]

theorem lowerChar_alphanum {c : Char} (h : c.isAlphanum = true) : Text.lowerChar c = [c.toLower] := by
  have hrange := isAlphanum_iff.1 h
  exact lowerChar_ascii (by omega)

/-- Characters with small letters of their own are taken one by one. -/
theorem lower_each {cs : List Char} (h : ∀ c ∈ cs, c ≠ 'Σ' ∧ Text.lowerChar c = [c.toLower]) :
    Text.lower (String.ofList cs) = String.ofList (cs.map Char.toLower) := by
  have hfrom (before : Bool) : Text.lowerFrom before cs = cs.map Char.toLower := by
    induction cs generalizing before with
    | nil => rfl
    | cons c rest ih =>
      obtain ⟨⟨hsigma, hc⟩, hrest⟩ := List.forall_mem_cons.1 h
      simp [Text.lowerFrom, hsigma, hc, ih hrest]
  rw [Text.lower, String.toList_ofList, hfrom]

theorem lower_alphanum {cs : List Char} (h : ∀ c ∈ cs, c.isAlphanum = true) :
    Text.lower (String.ofList cs) = String.ofList (cs.map Char.toLower) := by
  refine lower_each fun c hc => ⟨?_, lowerChar_alphanum (h c hc)⟩
  rintro rfl
  exact absurd (h _ hc) (by decide)

/-! ### Kinds of text -/

section Kinds

variable {text cs : List Char}

/-- With the suffix, the prefix alone decides the base. -/
theorem parse_big (h : text.filter (· != '_') = cs ++ ['n']) :
    parse (String.ofList text) = (readInteger 0 (String.ofList cs)).map .integer := by
  simp [parse, h]

theorem parse_small (h : text.filter (· != '_') = cs) (hcs : ∀ c ∈ cs, c.isAlphanum = true)
    (hlast : cs.getLast? ≠ some 'n') (hbased : hasBasePrefix (cs.map Char.toLower) = true) :
    parse (String.ofList text) = (readInteger 0 (String.ofList (cs.map Char.toLower))).map .integer := by
  simp [parse, h, hlast, lower_alphanum hcs, hbased]

theorem getLast?_ne_of_forall {p : Char → Bool} (h : ∀ c ∈ cs, p c = true) {d : Char} (hd : p d = false) :
    cs.getLast? ≠ some d := by
  intro hlast
  have := h d (List.mem_of_getLast? hlast)
  rw [hd] at this
  cases this

theorem bounds_of_isDigit {c : Char} (h : c.isDigit = true) : '0' ≤ c ∧ c ≤ '9' := by
  simp only [Char.isDigit, Bool.and_eq_true, decide_eq_true_eq] at h
  exact h

theorem toLower_of_isDigit {c : Char} (h : c.isDigit = true) : c.toLower = c := by
  refine dif_neg fun hupper => ?_
  simp [Char.isDigit, UInt32.le_iff_toNat_le] at h hupper
  omega

section Digits

variable (hcs : ∀ c ∈ cs, c.isDigit = true)

include hcs

theorem chomp_digits : chomp cs = cs := by
  rw [chomp, if_neg (by simpa using getLast?_ne_of_forall hcs (d := '\n') (by decide))]

theorem hasBasePrefix_digits : hasBasePrefix cs = false := by
  unfold hasBasePrefix
  split
  · next x _ =>
    have hx : x.isDigit = true := hcs x (by simp)
    have hne {y : Char} (hy : y.isDigit = false) : x ≠ y := by
      intro heq
      rw [heq, hy] at hx
      cases hx
    simp [hne (y := 'x') (by decide), hne (y := 'o') (by decide), hne (y := 'b') (by decide)]
  · rfl

/-- Digits below eight behind a zero, and only those, are octal. -/
theorem isLegacyOctal_digits :
    isLegacyOctal cs = true ↔ ∃ r, cs = '0' :: r ∧ r ≠ [] ∧ ∀ c ∈ r, c ≤ '7' := by
  unfold isLegacyOctal
  rw [chomp_digits hcs]
  split
  · next r =>
    have hdigit : ∀ c ∈ r, '0' ≤ c := fun c hc =>
      (bounds_of_isDigit (hcs c (List.mem_cons_of_mem _ hc))).1
    simp +contextual [hdigit]
  · next hne =>
    refine iff_of_false Bool.false_ne_true ?_
    rintro ⟨r, rfl, -⟩
    exact hne r rfl

theorem parse_digits (h : text.filter (· != '_') = cs) (hne : cs ≠ []) :
    parse (String.ofList text) =
      (readInteger (if isLegacyOctal cs then 8 else 10) (String.ofList cs)).map .integer := by
  have hlower : cs.map Char.toLower = cs := by
    rw [List.map_congr_left fun c hc => toLower_of_isDigit (hcs c hc), List.map_id']
  have halphanum : ∀ c ∈ cs, c.isAlphanum = true := by
    intro c hc
    simp [Char.isAlphanum, hcs c hc]
  have hdecimal : isDecimalInteger cs = true := by
    have hdigit : ∀ c ∈ cs, '0' ≤ c ∧ c ≤ '9' := fun c hc => bounds_of_isDigit (hcs c hc)
    simpa [isDecimalInteger, chomp_digits hcs, hne] using hdigit
  have hlast : ¬(cs.getLast? == some 'n') = true := by
    simpa using getLast?_ne_of_forall hcs (d := 'n') (by decide)
  simp only [parse, String.toList_ofList, h, lower_alphanum halphanum, hlower, hasBasePrefix_digits hcs,
    hdecimal, if_neg hlast, Bool.false_eq_true, if_false, if_true]
  split <;> rfl

end Digits

end Kinds

/-! ### Reading -/

section Reading

variable {base n : Nat} {mark : Char} {digits text : List Char}

/-- The base behind a prefix is that of its mark; no such base limits the number of digits. -/
theorem readInteger_based (hmark : (mark, base) ∈ baseMarks) (hvalue : digitsValue? base 0 digits = some n)
    (hne : digits ≠ []) : readInteger 0 (String.ofList ('0' :: mark :: digits)) = .ok (n : Int) := by
  have halphanum : ∀ c ∈ '0' :: mark :: digits, c.isAlphanum = true := by
    have hmarks : ∀ m ∈ baseMarks, m.1.isAlphanum = true := by decide
    simpa using ⟨hmarks _ hmark, alphanum_of_value hvalue⟩
  have hsplit : splitBase ('0' :: mark :: digits) = (base, digits) := by
    simp only [baseMarks, List.mem_cons, Prod.mk.injEq, List.not_mem_nil, or_false] at hmark
    rcases hmark with ⟨rfl, rfl⟩ | ⟨rfl, rfl⟩ | ⟨rfl, rfl⟩ | ⟨rfl, rfl⟩ | ⟨rfl, rfl⟩ | ⟨rfl, rfl⟩ <;> rfl
  have hbase : base ≠ 10 := by
    have hbases : ∀ m ∈ baseMarks, m.2 ≠ 10 := by decide
    exact hbases _ hmark
  rw [readInteger, String.toList_ofList, body_alphanum halphanum]
  simp [hsplit, natural?_of_value hvalue hne, hbase, Binary64.signed]

/-- Without a prefix the base is ten, and the digits are those of the number. -/
theorem readInteger_plain (n : Nat) : readInteger 0 (String.ofList (Nat.toDigits 10 n)) =
    if longestNumeral < (Nat.toDigits 10 n).length then
      .error (.overlongNumeral (some (Nat.toDigits 10 n).length))
    else .ok (n : Int) := by
  have hvalue := digitsValue?_toDigits (by decide : 2 ≤ 10) (by decide) n
  have hsplit : splitBase (Nat.toDigits 10 n) = (10, Nat.toDigits 10 n) := by
    rcases Nat.eq_zero_or_pos n with rfl | hn
    · rfl
    · have hhead := head?_toDigits (by decide : 2 ≤ 10) (by decide) hn
      unfold splitBase
      split
      · next hdigits => simp [hdigits] at hhead
      · rfl
  have hzero : ((Nat.toDigits 10 n).head? == some '0' && (Nat.toDigits 10 n).any (· != '0')) = false := by
    rcases Nat.eq_zero_or_pos n with rfl | hn
    · rfl
    · simp [head?_toDigits (by decide : 2 ≤ 10) (by decide) hn]
  rw [readInteger, String.toList_ofList, body_alphanum (alphanum_of_value hvalue)]
  simp [hsplit, natural?_of_value hvalue Nat.toDigits_ne_nil, hzero, Binary64.signed]

theorem isDigit_of_value (hbase : base ≤ 10) (hvalue : digitsValue? base 0 digits = some n) :
    ∀ c ∈ digits, c.isDigit = true := by
  intro c hc
  obtain ⟨d, hd, hdigit⟩ := exists_digit_of_digitsValue? hvalue c hc
  have := digitValue?_cases hdigit
  simp [Char.isDigit, UInt32.le_iff_toNat_le]
  omega

/-- What is spelled behind a prefix is read in the base of the prefix. -/
theorem parse_based (hmark : (mark, base) ∈ baseMarks) (hvalue : digitsValue? base 0 digits = some n)
    (hne : digits ≠ []) (htext : text.filter (· != '_') = '0' :: mark :: digits) :
    parse (String.ofList text) = .ok (.integer n) := by
  have hmarks : ∀ m ∈ baseMarks, m.1.isAlphanum = true ∧ (m.1.toLower, m.2) ∈ baseMarks ∧
      m.1.toLower ∈ ['x', 'o', 'b'] := by decide
  obtain ⟨halphanum, hlower, hsmall⟩ := hmarks _ hmark
  have hcs : ∀ c ∈ '0' :: mark :: digits, c.isAlphanum = true := by
    simpa using ⟨halphanum, alphanum_of_value hvalue⟩
  have hdigits : ∀ c ∈ digits, (digitValue? c).isSome = true := by
    intro c hc
    obtain ⟨d, -, hd⟩ := exists_digit_of_digitsValue? hvalue c hc
    rw [hd, Option.isSome_some]
  have hlast : ('0' :: mark :: digits).getLast? ≠ some 'n' := by
    have hne' := getLast?_ne_of_forall hdigits (d := 'n') (by decide)
    cases digits with
    | nil => exact absurd rfl hne
    | cons c rest => simpa only [List.getLast?_cons_cons] using hne'
  have hbased : hasBasePrefix (('0' :: mark :: digits).map Char.toLower) = true := by
    simpa [hasBasePrefix, or_assoc] using hsmall
  have hvalue' : digitsValue? base 0 (digits.map Char.toLower) = some n := by
    rw [digitsValue?_map_toLower, hvalue]
  have hread : readInteger 0 (String.ofList (('0' :: mark :: digits).map Char.toLower)) = .ok (n : Int) :=
    readInteger_based hlower hvalue' (by simpa using hne)
  rw [parse_small htext hcs hlast hbased, hread]
  rfl

/-- Digits alone are read in base eight if they look octal, and in base ten otherwise. -/
theorem parse_decimal (hvalue : digitsValue? 10 0 digits = some n) (hne : digits ≠ [])
    (hoctal : isLegacyOctal digits = false) (htext : text.filter (· != '_') = digits) :
    parse (String.ofList text) =
      if longestNumeral < digits.length then .error (.overlongNumeral (some digits.length))
      else .ok (.integer n) := by
  rw [parse_digits (isDigit_of_value (by decide) hvalue) htext hne, hoctal, if_neg Bool.false_ne_true,
    readInteger_digits (by decide) hvalue hne]
  simp only [true_and]
  split <;> rfl

theorem isLegacyOctal_toDigits (n : Nat) : isLegacyOctal (Nat.toDigits 10 n) = false := by
  have hvalue := digitsValue?_toDigits (by decide : 2 ≤ 10) (by decide) n
  refine Bool.eq_false_iff.2 fun hoctal => ?_
  obtain ⟨r, hr, hne, -⟩ := (isLegacyOctal_digits (isDigit_of_value (by decide) hvalue)).1 hoctal
  rcases Nat.eq_zero_or_pos n with rfl | hn
  · exact hne (List.cons.inj hr).2.symm
  · exact head?_toDigits (by decide : 2 ≤ 10) (by decide) hn (by rw [hr]; rfl)

/-- Octal digits behind a zero look octal. -/
theorem isLegacyOctal_zeros (zeros n : Nat) :
    isLegacyOctal (List.replicate (zeros + 1) '0' ++ Nat.toDigits 8 n) = true := by
  have hvalue := digitsValue?_zeros_append (by decide : 2 ≤ 8) (by decide) (zeros + 1) n
  refine (isLegacyOctal_digits (isDigit_of_value (by decide) hvalue)).2
    ⟨_, rfl, by simp [Nat.toDigits_ne_nil], ?_⟩
  intro c hc
  obtain ⟨d, hd, hdigit⟩ := exists_digit_of_digitsValue? hvalue c (List.mem_cons_of_mem _ hc)
  have hcases := digitValue?_cases hdigit
  show c.toNat ≤ 55
  omega

/-- Digits behind a zero do not look octal if one of them is an 8 or a 9. -/
theorem isLegacyOctal_large {zeros n : Nat} (h : '8' ∈ Nat.toDigits 10 n ∨ '9' ∈ Nat.toDigits 10 n) :
    isLegacyOctal (List.replicate (zeros + 1) '0' ++ Nat.toDigits 10 n) = false := by
  have hvalue := digitsValue?_zeros_append (by decide : 2 ≤ 10) (by decide) (zeros + 1) n
  refine Bool.eq_false_iff.2 fun hoctal => ?_
  obtain ⟨r, hr, -, hsmall⟩ := (isLegacyOctal_digits (isDigit_of_value (by decide) hvalue)).1 hoctal
  have hmem : ∀ c ∈ Nat.toDigits 10 n, c ≤ '7' := fun c hc =>
    hsmall c ((List.cons.inj hr).2 ▸ List.mem_append_right _ hc)
  rcases h with h8 | h9
  · exact absurd (hmem _ h8) (by decide)
  · exact absurd (hmem _ h9) (by decide)

/-- What every literal is read as. -/
theorem parse_integerLiteral (h : IntegerLiteral n base digits text) :
    parse (String.ofList text) =
      if base = 10 ∧ longestNumeral < digits.length then .error (.overlongNumeral (some digits.length))
      else .ok (.integer n) := by
  cases h with
  | @decimal body suffix hbody hsuffix =>
    have hvalue := digitsValue?_toDigits (by decide : 2 ≤ 10) (by decide) n
    have hfilter := hbody.filter (alphanum_of_value hvalue)
    simp only [suffixes, List.mem_cons, List.not_mem_nil, or_false] at hsuffix
    rcases hsuffix with rfl | rfl
    · rw [List.append_nil, parse_decimal hvalue Nat.toDigits_ne_nil (isLegacyOctal_toDigits n) hfilter]
      simp only [true_and]
    · have hsuffixed : (body ++ ['n']).filter (· != '_') = Nat.toDigits 10 n ++ ['n'] := by simp [hfilter]
      rw [parse_big hsuffixed, readInteger_plain]
      simp only [true_and]
      split <;> rfl
  | @based mark _ _ body suffix hmark hdigits hbody hsuffix =>
    have hbases : ∀ m ∈ baseMarks, 2 ≤ m.2 ∧ m.2 ≤ 16 ∧ m.2 ≠ 10 ∧ m.1 ≠ '_' := by decide
    obtain ⟨h2, h16, h10, hbar⟩ := hbases _ hmark
    have hvalue := hdigits.value h2 h16
    have hfilter := hbody.filter (alphanum_of_value hvalue)
    rw [if_neg fun hlong => h10 hlong.1]
    simp only [suffixes, List.mem_cons, List.not_mem_nil, or_false] at hsuffix
    rcases hsuffix with rfl | rfl
    · exact parse_based hmark hvalue hdigits.ne_nil (by simp [hfilter, hbar])
    · have hsuffixed : ('0' :: mark :: (body ++ ['n'])).filter (· != '_') = '0' :: mark :: digits ++ ['n'] := by
        simp [hfilter, hbar]
      rw [parse_big hsuffixed, readInteger_based hmark hvalue hdigits.ne_nil]
      rfl
  | octal zeros =>
    have hvalue := digitsValue?_zeros_append (by decide : 2 ≤ 8) (by decide) (zeros + 1) n
    have hne : List.replicate (zeros + 1) '0' ++ Nat.toDigits 8 n ≠ [] := by simp
    rw [parse_digits (isDigit_of_value (by decide) hvalue) (filter_alphanum (alphanum_of_value hvalue)) hne,
      isLegacyOctal_zeros, if_pos rfl, readInteger_digits (by decide) hvalue hne]
    rfl
  | @leadingZeros zeros hlarge =>
    have hvalue := digitsValue?_zeros_append (by decide : 2 ≤ 10) (by decide) (zeros + 1) n
    rw [parse_decimal hvalue (by simp) (isLegacyOctal_large hlarge)
      (filter_alphanum (alphanum_of_value hvalue))]
    simp only [true_and]

end Reading

/-- **Integer literals.** However a number is written, it is read as exactly that number, whatever its
size: unless it is written in base ten with more digits than are read, zeros in front included. -/
theorem integer_literal_read_iff {n base : Nat} {digits text : List Char}
    (h : IntegerLiteral n base digits text) :
    parse (String.ofList text) = .ok (.integer n) ↔ (base = 10 → digits.length ≤ longestNumeral) := by
  rw [parse_integerLiteral h]
  split
  · next hlong => exact iff_of_false nofun fun hshort => Nat.not_le_of_lt hlong.2 (hshort hlong.1)
  · next hshort => exact iff_of_true rfl fun hbase => Nat.le_of_not_lt fun hlong => hshort ⟨hbase, hlong⟩

/-- The digits of 2^53 + 1 in base sixteen. -/
def largeDigits : List Char := '2' :: List.replicate 12 '0' ++ ['1']

/-- Those digits with a bar among them. -/
def largeBody : List Char := ['2', '0', '_'] ++ List.replicate 11 '0' ++ ['1']

theorem large_literal_read :
    IntegerLiteral 9007199254740993 16 largeDigits ('0' :: 'X' :: (largeBody ++ ['n'])) ∧
    parse "0X20_000000000001n" = .ok (.integer 9007199254740993) := by
  have hspelled : Spells 16 largeDigits 9007199254740993 := ⟨0, by decide⟩
  have hseparated : Separated largeDigits largeBody := by
    refine .next '2' (.bar '0' ?_)
    repeat apply Separated.next '0'
    exact .last '1'
  have hliteral : IntegerLiteral 9007199254740993 16 largeDigits ('0' :: 'X' :: (largeBody ++ ['n'])) :=
    .based (by decide : ('X', 16) ∈ baseMarks) hspelled hseparated (by decide : ['n'] ∈ suffixes)
  exact ⟨hliteral, (integer_literal_read_iff hliteral).2 (by decide)⟩

/-- The number 89 behind 4299 zeros has two digits of its own, and is not read. -/
theorem overlong_literal_unread :
    89 < 10 ^ longestNumeral ∧
    IntegerLiteral 89 10 (List.replicate 4299 '0' ++ ['8', '9']) (List.replicate 4299 '0' ++ ['8', '9']) ∧
    parse (String.ofList (List.replicate 4299 '0' ++ ['8', '9'])) = .error (.overlongNumeral (some 4301)) := by
  have hdigits : Nat.toDigits 10 89 = ['8', '9'] := by decide
  have hliteral : IntegerLiteral 89 10 (List.replicate 4299 '0' ++ ['8', '9'])
      (List.replicate 4299 '0' ++ ['8', '9']) := by
    rw [← hdigits]
    exact .leadingZeros (by rw [hdigits]; decide)
  have hsmall : 89 < 10 ^ longestNumeral :=
    calc 89 < 10 ^ 2 := by decide
      _ ≤ 10 ^ longestNumeral := Nat.pow_le_pow_right (by decide) (by decide)
  have hlength : (List.replicate 4299 '0' ++ ['8', '9']).length = 4301 := by
    rw [List.length_append, List.length_replicate]
    rfl
  refine ⟨hsmall, hliteral, ?_⟩
  rw [parse_integerLiteral hliteral, hlength, if_pos (by decide)]

end SettingsHarvest.Numeral
