import Mathlib.Tactic.IntervalCases
import SettingsHarvest.Number.Numeral

/-! Digits of a number.

In a base up to sixteen a number is spelled by its digits, of either case, with any number of zeros in
front (`Spells`). However it is spelled, reading the digits comes back to the number (`Spells.value`).
Letters and digits have nothing around or in front of them that a reading would take off, so that they
are read as they stand (`body_alphanum`). -/
namespace SettingsHarvest.Numeral

/-- Digits of a number, of either case, with any number of zeros in front. -/
def Spells (base : Nat) (digits : List Char) (n : Nat) : Prop :=
  ∃ zeros, digits.map Char.toLower = List.replicate zeros '0' ++ Nat.toDigits base n

/-! ### Digits in a row -/

theorem digitValue?_digitChar {d : Nat} (h : d < 16) : digitValue? d.digitChar = some d := by
  interval_cases d <;> decide

/-- Capital digits have the values of small ones. -/
theorem digitValue?_toLower (c : Char) : digitValue? c.toLower = digitValue? c := by
  by_cases h : 'A' ≤ c ∧ c ≤ 'Z'
  · have hbounds : 65 ≤ c.toNat ∧ c.toNat ≤ 90 := by
      simpa [Char.le_def, UInt32.le_iff_toNat_le] using h
    obtain ⟨hlow, hhigh⟩ := hbounds
    rw [← Char.ofNat_toNat c]
    generalize c.toNat = n at hlow hhigh
    interval_cases n <;> decide
  · have hsame : c.toLower = c := dif_neg h
    rw [hsame]

theorem digitsValue?_map_toLower (base acc : Nat) (digits : List Char) :
    digitsValue? base acc (digits.map Char.toLower) = digitsValue? base acc digits := by
  induction digits generalizing acc with
  | nil => rfl
  | cons c rest ih =>
    rw [List.map_cons, digitsValue?, digitsValue?, digitValue?_toLower]
    simp only [ih]

theorem digitsValue?_append (base acc : Nat) (front back : List Char) :
    digitsValue? base acc (front ++ back) =
      (digitsValue? base acc front).bind (digitsValue? base · back) := by
  induction front generalizing acc with
  | nil => rfl
  | cons c rest ih =>
    rw [List.cons_append, digitsValue?, digitsValue?]
    cases digitValue? c with
    | none => rfl
    | some d =>
      by_cases hd : d < base
      · simp [hd, ih]
      · simp [hd]

/-- What is read as a number is all digits of its base. -/
theorem exists_digit_of_digitsValue? {base acc n : Nat} {digits : List Char}
    (h : digitsValue? base acc digits = some n) :
    ∀ c ∈ digits, ∃ d < base, digitValue? c = some d := by
  induction digits generalizing acc with
  | nil => exact nofun
  | cons c rest ih =>
    rw [digitsValue?] at h
    split at h
    · next d hd =>
      split at h
      · next hlt => exact List.forall_mem_cons.2 ⟨⟨d, hlt, hd⟩, ih h⟩
      · cases h
    · cases h

/-- The digits and their values. -/
theorem digitValue?_cases {c : Char} {d : Nat} (h : digitValue? c = some d) :
    (48 ≤ c.toNat ∧ c.toNat ≤ 57 ∧ d = c.toNat - 48) ∨ (97 ≤ c.toNat ∧ c.toNat ≤ 102 ∧ d = c.toNat - 87) ∨
      (65 ≤ c.toNat ∧ c.toNat ≤ 70 ∧ d = c.toNat - 55) := by
  have hle (a b : Char) :
      (decide (a ≤ c) && decide (c ≤ b)) = true ↔ a.toNat ≤ c.toNat ∧ c.toNat ≤ b.toNat := by
    simp [Char.le_def, UInt32.le_iff_toNat_le, ← Char.toNat_val]
  unfold digitValue? at h
  split at h
  · next hrange =>
    cases h
    exact .inl ⟨((hle _ _).1 hrange).1, ((hle _ _).1 hrange).2, rfl⟩
  · split at h
    · next hrange =>
      cases h
      exact .inr (.inl ⟨((hle _ _).1 hrange).1, ((hle _ _).1 hrange).2, rfl⟩)
    · split at h
      · next hrange =>
        cases h
        exact .inr (.inr ⟨((hle _ _).1 hrange).1, ((hle _ _).1 hrange).2, rfl⟩)
      · cases h

section Base

variable {base : Nat} (h2 : 2 ≤ base)

include h2

theorem digitsValue?_toDigits (h16 : base ≤ 16) (n : Nat) :
    digitsValue? base 0 (Nat.toDigits base n) = some n := by
  induction n using Nat.strongRecOn with
  | ind n ih =>
    by_cases hn : n < base
    · rw [Nat.toDigits_of_lt_base hn]
      simp [digitsValue?, digitValue?_digitChar (Nat.lt_of_lt_of_le hn h16), hn]
    · have hlast : n % base < base := Nat.mod_lt _ (by omega)
      have hfront : n / base < n := Nat.div_lt_self (by omega) h2
      rw [Nat.toDigits_of_base_le h2 (Nat.le_of_not_lt hn), digitsValue?_append, ih (n / base) hfront]
      simp only [Option.bind_some, digitsValue?, digitValue?_digitChar (Nat.lt_of_lt_of_le hlast h16),
        hlast, if_true, Nat.div_add_mod']

theorem digitsValue?_zeros (zeros : Nat) :
    digitsValue? base 0 (List.replicate zeros '0') = some 0 := by
  induction zeros with
  | zero => rfl
  | succ zeros ih =>
    have hzero : digitValue? '0' = some 0 := by decide
    rw [List.replicate_succ, digitsValue?, hzero]
    simpa [show 0 < base by omega] using ih

theorem digitsValue?_zeros_append (h16 : base ≤ 16) (zeros n : Nat) :
    digitsValue? base 0 (List.replicate zeros '0' ++ Nat.toDigits base n) = some n := by
  rw [digitsValue?_append, digitsValue?_zeros h2]
  exact digitsValue?_toDigits h2 h16 n

theorem Spells.value {digits : List Char} {n : Nat} (h : Spells base digits n) (h16 : base ≤ 16) :
    digitsValue? base 0 digits = some n := by
  obtain ⟨zeros, hdigits⟩ := h
  rw [← digitsValue?_map_toLower, hdigits, digitsValue?_zeros_append h2 h16]

/-- Only zero has a zero in front. -/
theorem head?_toDigits (h16 : base ≤ 16) {n : Nat} (hn : 0 < n) :
    (Nat.toDigits base n).head? ≠ some '0' := by
  induction n using Nat.strongRecOn with
  | ind n ih =>
    by_cases hlt : n < base
    · rw [Nat.toDigits_of_lt_base hlt]
      intro hzero
      have hvalue := digitValue?_digitChar (Nat.lt_of_lt_of_le hlt h16)
      rw [show n.digitChar = '0' by simpa using hzero] at hvalue
      simp [show digitValue? '0' = some 0 by decide] at hvalue
      omega
    · have hle : base ≤ n := Nat.le_of_not_lt hlt
      have hfront := ih (n / base) (Nat.div_lt_self hn h2) (Nat.div_pos hle (by omega))
      rw [Nat.toDigits_of_base_le h2 hle]
      cases hdigits : Nat.toDigits base (n / base) with
      | nil => exact absurd hdigits Nat.toDigits_ne_nil
      | cons c rest => rwa [hdigits] at hfront

end Base

theorem Spells.ne_nil {base : Nat} {digits : List Char} {n : Nat} (h : Spells base digits n) :
    digits ≠ [] := by
  rintro rfl
  obtain ⟨zeros, hdigits⟩ := h
  simp [Nat.toDigits_ne_nil] at hdigits

/-! ### Letters and digits -/

/-- Letters and digits by their code points. -/
theorem isAlphanum_iff {c : Char} : c.isAlphanum = true ↔
    48 ≤ c.toNat ∧ c.toNat ≤ 57 ∨ 65 ≤ c.toNat ∧ c.toNat ≤ 90 ∨ 97 ≤ c.toNat ∧ c.toNat ≤ 122 := by
  show ((decide ('A'.val ≤ c.val ∧ c.val ≤ 'Z'.val) || decide ('a'.val ≤ c.val) && decide (c.val ≤ 'z'.val)) ||
    decide ('0'.val ≤ c.val) && decide (c.val ≤ '9'.val)) = true ↔ _
  simp [UInt32.le_iff_toNat_le, ← Char.toNat_val]
  omega

theorem isAlphanum_of_digitValue? {c : Char} {d : Nat} (h : digitValue? c = some d) :
    c.isAlphanum = true := by
  have := digitValue?_cases h
  rw [isAlphanum_iff]
  omega

theorem isPlainSpace_alphanum {c : Char} (h : c.isAlphanum = true) : isPlainSpace c = false := by
  have := isAlphanum_iff.1 h
  refine Bool.eq_false_iff.2 fun hspace => ?_
  simp [isPlainSpace, Char.le_def, UInt32.le_iff_toNat_le] at hspace
  rcases hspace with rfl | hspace
  · revert this
    decide
  · omega

theorem trim_of_no_blank {cs : List Char} (h : ∀ c ∈ cs, isPlainSpace c = false) : trim cs = cs := by
  have hkeep (ds : List Char) (hds : ∀ c ∈ ds, isPlainSpace c = false) :
      ds.dropWhile isPlainSpace = ds := by
    cases ds with
    | nil => rfl
    | cons c rest => simp [hds c List.mem_cons_self]
  have hback : ∀ c ∈ cs.reverse, isPlainSpace c = false := fun c hc => h c (List.mem_reverse.1 hc)
  rw [trim, hkeep cs h, hkeep cs.reverse hback, List.reverse_reverse]

section Alphanum

variable {cs : List Char} (h : ∀ c ∈ cs, c.isAlphanum = true)

include h

theorem plain_alphanum : plain cs = cs := by
  rw [plain, if_pos]
  refine List.all_eq_true.2 fun c hc => ?_
  have := isAlphanum_iff.1 (h c hc)
  simp only [decide_eq_true_eq]
  omega

theorem splitSign_alphanum : splitSign cs = (false, cs) := by
  unfold splitSign
  split
  · exact absurd (h _ List.mem_cons_self) (by decide)
  · exact absurd (h _ List.mem_cons_self) (by decide)
  · rfl

/-- Nothing is taken off letters and digits. -/
theorem body_alphanum : splitSign (trim (plain cs)) = (false, cs) := by
  rw [plain_alphanum h, trim_of_no_blank fun c hc => isPlainSpace_alphanum (h c hc), splitSign_alphanum h]

end Alphanum

section Reading

variable {base n : Nat} {digits : List Char}

theorem natural?_of_value (hvalue : digitsValue? base 0 digits = some n) (hne : digits ≠ []) :
    natural? base digits = some n := by
  rw [natural?, if_neg (by simpa using hne), hvalue]

theorem alphanum_of_value (hvalue : digitsValue? base 0 digits = some n) :
    ∀ c ∈ digits, c.isAlphanum = true := by
  intro c hc
  obtain ⟨d, -, hd⟩ := exists_digit_of_digitsValue? hvalue c hc
  exact isAlphanum_of_digitValue? hd

/-- Digits are read in a base, but in base ten only so many. -/
theorem readInteger_digits (hbase : base ≠ 0) (hvalue : digitsValue? base 0 digits = some n)
    (hne : digits ≠ []) :
    readInteger base (String.ofList digits) =
      if base = 10 ∧ longestNumeral < digits.length then
        .error (.overlongNumeral (some digits.length))
      else .ok (n : Int) := by
  rw [readInteger, String.toList_ofList, body_alphanum (alphanum_of_value hvalue)]
  simp [hbase, natural?_of_value hvalue hne, Binary64.signed]

end Reading

end SettingsHarvest.Numeral
