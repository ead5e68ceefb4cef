import SettingsHarvest.Evaluation
import SettingsHarvest.Proofs.Digits

/-! Keys that elements are counted by.

A key of digits alone counts to an element of a list, and is read as a numeral for that. But there are
digits without place value, such as superscripts, and there are numerals with too many digits. Those are
the keys that cannot be read, and there are no others (`readInteger_error_iff`). -/
namespace SettingsHarvest.Numeral
open Text

/-! ### Digits of all scripts -/

/-- The plain digit that a digit is read as, or a mark if it has no place value. -/
def plainDigit (c : Char) : Char :=
  match decimalValue? c with
  | some d => Char.ofNat (0x30 + d)
  | none => '?'

/-- What a key of digits is read as. -/
def plainDigits : List Char := ['0', '1', '2', '3', '4', '5', '6', '7', '8', '9', '?']

theorem lt_ten_of_decimalValue {c : Char} {d : Nat} (h : decimalValue? c = some d) : d < 10 := by
  obtain ⟨z, hz, rfl⟩ := Option.map_eq_some_iff.1 h
  have hrange := List.find?_some hz
  simp only [Bool.and_eq_true, decide_eq_true_eq] at hrange
  omega

theorem plainDigit_mem (c : Char) : plainDigit c ∈ plainDigits := by
  unfold plainDigit
  split
  · next d hd =>
    have hall : ∀ d < 10, Char.ofNat (0x30 + d) ∈ plainDigits := by decide
    exact hall d (lt_ten_of_decimalValue hd)
  · decide

/-- The mark, and only the mark, is no digit. -/
theorem digitValue_plainDigit {c : Char} : digitValue? (plainDigit c) = none ↔ decimalValue? c = none := by
  unfold plainDigit
  split
  · next d hd =>
    have hall : ∀ d < 10, digitValue? (Char.ofNat (0x30 + d)) ≠ none := by decide
    exact iff_of_false (hall d (lt_ten_of_decimalValue hd)) (by simp [hd])
  · next hnone => exact iff_of_true (by decide) hnone

theorem digitValue_lt_ten {c : Char} (hc : c ∈ plainDigits) {d : Nat} (hd : digitValue? c = some d) :
    d < 10 := by
  have hall : plainDigits.all (fun c => (digitValue? c).getD 0 < 10) = true := by decide
  simpa [hd] using List.all_eq_true.1 hall c hc

theorem plainDigit_ascii {c : Char} (hc : c.toNat < 0x80) (h : isDigit c = true) : plainDigit c = c := by
  have hall : ∀ n < 0x80, isDigit (Char.ofNat n) = true → plainDigit (Char.ofNat n) = Char.ofNat n := by
    decide +kernel
  have hplain := hall c.toNat hc
  rw [Char.ofNat_toNat] at hplain
  exact hplain h

/-- The white space of all scripts. -/
def spaces : List Nat :=
  List.range' 9 5 ++ List.range' 0x1c 5 ++ List.range' 0x2000 11
    ++ [0x85, 0xa0, 0x1680, 0x2028, 0x2029, 0x202f, 0x205f, 0x3000]

theorem isSpace_eq_false {c : Char} (h : isDigit c = true) : isSpace c = false := by
  refine Bool.eq_false_iff.2 fun hspace => ?_
  have hmem : c.toNat ∈ spaces := by
    simp only [isSpace, Bool.or_eq_true, Bool.and_eq_true, decide_eq_true_eq, beq_iff_eq] at hspace
    simp only [spaces, List.mem_append, List.mem_range'_1, List.mem_cons, List.not_mem_nil, or_false]
    omega
  have hall : ∀ n ∈ spaces, isDigit (Char.ofNat n) = false := by decide +kernel
  have hno := hall c.toNat hmem
  rw [Char.ofNat_toNat, h] at hno
  cases hno

theorem plain_digits {cs : List Char} (h : ∀ c ∈ cs, isDigit c = true) : plain cs = cs.map plainDigit := by
  unfold plain
  split
  · next hascii =>
    have hself : ∀ c ∈ cs, plainDigit c = c := fun c hc =>
      plainDigit_ascii (by simpa using List.all_eq_true.1 hascii c hc) (h c hc)
    rw [List.map_congr_left hself, List.map_id']
  · refine List.map_congr_left fun c hc => ?_
    split
    · next hascii => exact (plainDigit_ascii hascii (h c hc)).symm
    · rw [isSpace_eq_false (h c hc)]
      rfl

/-! ### Numerals of digits -/

variable {cs : List Char}

theorem trim_eq_self (h : ∀ c ∈ cs, c ∈ plainDigits) : trim cs = cs := by
  have hblank : plainDigits.all (fun c => !isPlainSpace c) = true := by decide
  exact trim_of_no_blank fun c hc => by simpa using List.all_eq_true.1 hblank c (h c hc)

theorem splitSign_digits (h : ∀ c ∈ cs, c ∈ plainDigits) : splitSign cs = (false, cs) := by
  unfold splitSign
  split
  · exact absurd (h _ List.mem_cons_self) (by decide)
  · exact absurd (h _ List.mem_cons_self) (by decide)
  · rfl

theorem digitsValue_eq_none_iff (h : ∀ c ∈ cs, c ∈ plainDigits) (acc : Nat) :
    digitsValue? 10 acc cs = none ↔ ∃ c ∈ cs, digitValue? c = none := by
  induction cs generalizing acc with
  | nil => simp [digitsValue?]
  | cons c rest ih =>
    obtain ⟨hc, hrest⟩ := List.forall_mem_cons.1 h
    rw [digitsValue?]
    simp only [List.mem_cons, exists_eq_or_imp]
    cases hd : digitValue? c with
    | none => exact iff_of_true rfl (Or.inl rfl)
    | some d =>
      dsimp only
      rw [if_pos (digitValue_lt_ten hc hd), ih hrest (acc * 10 + d)]
      exact (or_iff_right (Option.some_ne_none d)).symm

/-- A key of digits that is no numeral: one of them has no place value, or there are too many. -/
structure Unreadable (key : String) : Prop where
  isIndex : Project.isIndex key = true
  reason : (∃ c ∈ key.toList, decimalValue? c = none) ∨ longestNumeral < key.toList.length

/-- **Keys that cannot be read.** A key of digits is refused exactly if it is no numeral. -/
theorem readInteger_error_iff {key : String} (h : Project.isIndex key = true) :
    (∃ f, readInteger 10 key = .error f) ↔ Unreadable key := by
  obtain ⟨hsome, hall⟩ := Bool.and_eq_true_iff.1 h
  have hplain : plain key.toList = key.toList.map plainDigit :=
    plain_digits (List.all_eq_true.1 hall)
  have hmem : ∀ c ∈ key.toList.map plainDigit, c ∈ plainDigits :=
    List.forall_mem_map.2 fun c _ => plainDigit_mem c
  have hloose : (∃ c ∈ key.toList.map plainDigit, digitValue? c = none) ↔
      ∃ c ∈ key.toList, decimalValue? c = none := by
    constructor
    · rintro ⟨_, hc, hnone⟩
      obtain ⟨c, hkey, rfl⟩ := List.mem_map.1 hc
      exact ⟨c, hkey, digitValue_plainDigit.1 hnone⟩
    · rintro ⟨c, hc, hnone⟩
      exact ⟨_, List.mem_map_of_mem hc, digitValue_plainDigit.2 hnone⟩
  have hne : key ≠ "" := by simpa using hsome
  have hvalue := (digitsValue_eq_none_iff hmem 0).trans hloose
  cases hdigits : digitsValue? 10 0 (key.toList.map plainDigit) with
  | none =>
    have hread : readInteger 10 key = .error (.notInteger 10 key) := by
      rw [readInteger, hplain, trim_eq_self hmem, splitSign_digits hmem]
      simp [natural?, hne, hdigits]
    exact iff_of_true ⟨_, hread⟩ ⟨h, Or.inl (hvalue.1 hdigits)⟩
  | some n =>
    have hread : readInteger 10 key = if key.toList.length > longestNumeral then
        .error (.overlongNumeral (some key.toList.length)) else .ok (Binary64.signed false n) := by
      rw [readInteger, hplain, trim_eq_self hmem, splitSign_digits hmem]
      simp [natural?, hne, hdigits]
    rw [hread]
    split
    · next hlong => exact iff_of_true ⟨_, rfl⟩ ⟨h, Or.inr hlong⟩
    · next hshort =>
      refine iff_of_false ?_ fun hkey => hkey.reason.elim (fun hloose => ?_) hshort
      · rintro ⟨f, hf⟩
        cases hf
      · rw [hvalue.2 hloose] at hdigits
        cases hdigits

end SettingsHarvest.Numeral
