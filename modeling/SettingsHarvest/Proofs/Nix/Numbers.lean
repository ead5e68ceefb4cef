import Mathlib.Data.List.TakeWhile
import SettingsHarvest.Nix.Module
import SettingsHarvest.Proofs.ShortestDecimals

/-! What the texts of numbers denote.

`readNumber` reads a number as the Nix language does: digits are an integer, and digits with a decimal point
are a floating-point number, which can have an exponent; without the point there is none. An integer is
read as it was written (`numberText?_intText`), and so is a floating-point number, as long as it has its point.
A number of a single digit is written without one where it takes an exponent, and that is no number to the
language (`numberText?_decimalText`). -/
namespace SettingsHarvest.Nix

/-! ### Reading -/

/-- The number that decimal digits denote. -/
def digitsNumber (digits : List Char) : Nat := Nat.ofDigitChars 10 digits 0

/-- Reads the exponent that a text starts with, if it starts with one. -/
def readExponent : List Char → Int × List Char
  | [] => (0, [])
  | mark :: rest =>
    let (negative, digits) := Numeral.splitSign rest
    let power := digits.takeWhile Char.isDigit
    if (mark == 'e' || mark == 'E') && !power.isEmpty then
      (Binary64.signed negative (digitsNumber power), digits.dropWhile Char.isDigit)
    else (0, mark :: rest)

/-- Reads the number that a text starts with; a sign is no part of it. -/
def readNumber (cs : List Char) : Option (Value × List Char) :=
  let whole := cs.takeWhile Char.isDigit
  if whole.isEmpty then none
  else
    match cs.dropWhile Char.isDigit with
    | '.' :: rest =>
      let fraction := rest.takeWhile Char.isDigit
      let (power, rest) := readExponent (rest.dropWhile Char.isDigit)
      some (.decimal (.ofDecimal false (digitsNumber (whole ++ fraction)) (power - fraction.length)), rest)
    | rest => some (.integer (digitsNumber whole), rest)

/-- The number that a text is as a whole. -/
def wholeNumber? (cs : List Char) : Option Value :=
  match readNumber cs with
  | some (v, []) => some v
  | _ => none

def negated : Value → Value
  | .integer n => .integer (-n)
  | .decimal x => .decimal x.neg
  | v => v

/-- The number that a text denotes; a minus can stand in front of it. -/
def numberText? : List Char → Option Value
  | '-' :: cs => (wholeNumber? cs).map negated
  | cs => wholeNumber? cs

/-! ### Digits -/

section Digits

variable {digits fraction rest : List Char}

/-- What stands behind digits does not go on with one. -/
def EndsDigits (rest : List Char) : Prop := ∀ c ∈ rest.head?, c.isDigit = false

theorem endsDigits_nil : EndsDigits [] := by simp [EndsDigits]

theorem span_digits (hdigits : ∀ c ∈ digits, c.isDigit = true) (hrest : EndsDigits rest) :
    (digits ++ rest).takeWhile Char.isDigit = digits ∧ (digits ++ rest).dropWhile Char.isDigit = rest := by
  rw [List.takeWhile_append_of_pos hdigits, List.dropWhile_append_of_pos hdigits]
  cases rest with
  | nil => simp
  | cons c after => simp [hrest c rfl]

theorem digitsNumber_append (front back : List Char) :
    digitsNumber (front ++ back) = digitsNumber front * 10 ^ back.length + digitsNumber back := by
  rw [digitsNumber, Nat.ofDigitChars_append, Nat.ofDigitChars_eq_ofDigitChars_zero, mul_comm]
  rfl

theorem digitsNumber_zeros (n : Nat) : digitsNumber (List.replicate n '0') = 0 := by
  simp [digitsNumber]

theorem digitsNumber_toDigits (n : Nat) : digitsNumber (Nat.toDigits 10 n) = n :=
  Nat.ofDigitChars_ten_toDigits

theorem isDigit_toDigits {n : Nat} : ∀ c ∈ Nat.toDigits 10 n, c.isDigit = true :=
  fun _ hc => Nat.isDigit_of_mem_toDigits (by decide) (by decide) hc

theorem isDigit_zeros {n : Nat} : ∀ c ∈ List.replicate n '0', c.isDigit = true := by
  intro c hc
  rw [List.eq_of_mem_replicate hc]
  rfl

theorem exists_digits (n : Nat) :
    ∃ c rest, Nat.toDigits 10 n = c :: rest ∧ (∀ d ∈ c :: rest, d.isDigit = true) ∧
      digitsNumber (c :: rest) = n := by
  obtain ⟨c, rest, hdigits⟩ := List.exists_cons_of_ne_nil (Nat.toDigits_ne_nil (n := n) (b := 10))
  exact ⟨c, rest, hdigits, hdigits ▸ isDigit_toDigits, hdigits ▸ digitsNumber_toDigits n⟩

theorem readNumber_integer (hdigits : ∀ c ∈ digits, c.isDigit = true) (hne : digits ≠ [])
    (hrest : EndsDigits rest) (hpoint : rest.head? ≠ some '.') :
    readNumber (digits ++ rest) = some (.integer (digitsNumber digits), rest) := by
  obtain ⟨htake, hdrop⟩ := span_digits hdigits hrest
  rw [readNumber, htake, hdrop, if_neg (by simpa using hne)]
  split
  · next after => exact absurd rfl hpoint
  · rfl

theorem readNumber_decimal (hdigits : ∀ c ∈ digits, c.isDigit = true) (hne : digits ≠ [])
    (hfraction : ∀ c ∈ fraction, c.isDigit = true) (hrest : EndsDigits rest) :
    readNumber (digits ++ '.' :: (fraction ++ rest)) =
      some (.decimal (.ofDecimal false (digitsNumber (digits ++ fraction))
        ((readExponent rest).1 - fraction.length)), (readExponent rest).2) := by
  have hpoint : EndsDigits ('.' :: (fraction ++ rest)) := by
    rintro c hc
    cases hc
    rfl
  obtain ⟨htake, hdrop⟩ := span_digits hdigits hpoint
  obtain ⟨htake', hdrop'⟩ := span_digits hfraction hrest
  rw [readNumber, htake, hdrop, if_neg (by simpa using hne)]
  simp only [htake', hdrop']

theorem readExponent_written (z n : Nat) (negative : Bool) :
    readExponent ('e' :: (if negative then '-' else '+') :: (List.replicate z '0' ++ Nat.toDigits 10 n)) =
      (Binary64.signed negative n, []) := by
  have hall : ∀ c ∈ List.replicate z '0' ++ Nat.toDigits 10 n, c.isDigit = true :=
    List.forall_mem_append.2 ⟨isDigit_zeros, isDigit_toDigits⟩
  have hsign : Numeral.splitSign
      ((if negative then '-' else '+') :: (List.replicate z '0' ++ Nat.toDigits 10 n)) =
      (negative, List.replicate z '0' ++ Nat.toDigits 10 n) := by
    cases negative <;> rfl
  have htake := List.takeWhile_eq_self_iff.2 hall
  have hdrop := List.dropWhile_eq_nil_iff.2 hall
  rw [readExponent, hsign]
  dsimp only
  rw [htake, hdrop, if_pos (by simp [Nat.toDigits_ne_nil]), digitsNumber_append, digitsNumber_zeros,
    zero_mul, zero_add, digitsNumber_toDigits]

end Digits

/-! ### Signs -/

theorem numberText?_signed {body : List Char} (h : body.head? ≠ some '-') (negative : Bool) :
    numberText? ((if negative then ['-'] else []) ++ body) =
      (wholeNumber? body).map fun v => if negative then negated v else v := by
  cases negative with
  | true => rfl
  | false =>
    simp only [Bool.false_eq_true, if_false, List.nil_append, Option.map_id']
    unfold numberText?
    split
    · exact absurd rfl h
    · rfl

theorem head?_ne_minus {c : Char} {rest : List Char} (h : c.isDigit = true) :
    (c :: rest).head? ≠ some '-' := by
  rintro ⟨⟩
  cases h

/-! ### Integers -/

/-- **An integer is read as it was written.** -/
theorem numberText?_intText (n : Int) :
    numberText? (Value.intText n).toList = some (.integer n) := by
  obtain ⟨c, rest, hdigits, hall, -⟩ := exists_digits n.natAbs
  have hread : readNumber (Nat.toDigits 10 n.natAbs ++ []) = _ :=
    readNumber_integer isDigit_toDigits Nat.toDigits_ne_nil endsDigits_nil (by simp)
  rw [List.append_nil, digitsNumber_toDigits] at hread
  have hminus : (Nat.toDigits 10 n.natAbs).head? ≠ some '-' :=
    hdigits ▸ head?_ne_minus (hall c List.mem_cons_self)
  have hsign := numberText?_signed hminus (n < 0)
  rw [Value.intText, String.toList_ofList]
  simp only [decide_eq_true_eq] at hsign
  rw [hsign, wholeNumber?, hread]
  dsimp only [Option.map_some]
  split
  · simp only [negated]
    congr 2
    omega
  · congr 2
    omega

/-! ### Floating-point numbers -/

section Decimals

variable {digits : List Char} {m : Nat} {e k : Int}

/-- Digits with the point among them, in front or behind, filled up with zeros. -/
theorem exists_pointed (hdigits : ∀ c ∈ digits, c.isDigit = true) (hne : digits ≠ []) (k : Int) :
    ∃ whole fraction, Binary64.positional digits k = whole ++ '.' :: fraction ∧
      (∀ c ∈ whole, c.isDigit = true) ∧ whole ≠ [] ∧ (∀ c ∈ fraction, c.isDigit = true) ∧
      (digitsNumber (whole ++ fraction) : ℚ) * 10 ^ (-fraction.length : Int) =
        digitsNumber digits * 10 ^ (k + 1 - digits.length) := by
  have hten : (10 : ℚ) ≠ 0 := by norm_num
  unfold Binary64.positional
  split
  · next hk =>
    refine ⟨['0'], List.replicate (-k - 1).toNat '0' ++ digits, rfl, by simp, by simp,
      List.forall_mem_append.2 ⟨isDigit_zeros, hdigits⟩, ?_⟩
    rw [digitsNumber_append, digitsNumber_append, digitsNumber_zeros, show digitsNumber ['0'] = 0 from rfl,
      zero_mul, zero_add, zero_mul, zero_add, List.length_append, List.length_replicate]
    congr 2
    omega
  · next hk =>
    dsimp only
    by_cases hlong : k.toNat + 1 < digits.length
    · refine ⟨digits.take (k.toNat + 1), digits.drop (k.toNat + 1), ?_,
        fun c hc => hdigits c (List.mem_of_mem_take hc), by simp [hne],
        fun c hc => hdigits c (List.mem_of_mem_drop hc), ?_⟩
      · rw [show k.toNat + 1 - digits.length = 0 by omega, List.replicate_zero, List.append_nil,
          if_neg (by simpa using hlong)]
      · rw [List.take_append_drop, List.length_drop]
        congr 2
        omega
    · have hlength : digits.length ≤ k.toNat + 1 := not_lt.1 hlong
      refine ⟨digits ++ List.replicate (k.toNat + 1 - digits.length) '0', ['0'], ?_,
        List.forall_mem_append.2 ⟨hdigits, isDigit_zeros⟩, by simp [hne], by simp, ?_⟩
      · rw [List.take_of_length_le hlength, List.drop_of_length_le hlength]
        rfl
      · rw [digitsNumber_append, digitsNumber_append, digitsNumber_zeros, show digitsNumber ['0'] = 0 from rfl,
          List.length_replicate]
        push_cast
        rw [add_zero, add_zero, mul_assoc, mul_assoc, ← zpow_natCast, ← zpow_natCast, ← zpow_add₀ hten,
          ← zpow_add₀ hten]
        congr 2
        simp only [List.length_singleton]
        omega

theorem readNumber_pointed {whole fraction : List Char} (hwhole : ∀ c ∈ whole, c.isDigit = true)
    (hne : whole ≠ []) (hfraction : ∀ c ∈ fraction, c.isDigit = true) :
    readNumber (whole ++ '.' :: fraction) =
      some (.decimal (.ofDecimal false (digitsNumber (whole ++ fraction)) (-fraction.length)), []) := by
  have hread : readNumber (whole ++ '.' :: (fraction ++ [])) = _ :=
    readNumber_decimal hwhole hne hfraction endsDigits_nil
  rw [List.append_nil] at hread
  rw [hread, readExponent, zero_sub]

/-- The exponent behind digits. -/
def exponentText (k : Int) : List Char :=
  'e' :: (if decide (k < 0) then '-' else '+') ::
    (List.replicate (2 - (Nat.toDigits 10 k.natAbs).length) '0' ++ Nat.toDigits 10 k.natAbs)

theorem endsDigits_exponentText : EndsDigits (exponentText k) := by
  rintro _ ⟨⟩
  rfl

theorem readExponent_exponentText : readExponent (exponentText k) = (k, []) := by
  rw [exponentText, readExponent_written, Binary64.signed]
  congr 1
  split
  · next hk =>
    rw [decide_eq_true_eq] at hk
    omega
  · next hk =>
    rw [decide_eq_true_eq] at hk
    omega

theorem scientific_single (c : Char) : Binary64.scientific [c] k = [c] ++ exponentText k := by
  simp [Binary64.scientific, exponentText]

theorem scientific_pointed {c : Char} {rest : List Char} (hne : rest ≠ []) :
    Binary64.scientific (c :: rest) k = [c] ++ '.' :: (rest ++ exponentText k) := by
  simp [Binary64.scientific, exponentText, hne]

theorem wholeNumber?_scientific {c : Char} {rest : List Char} (hdigits : ∀ d ∈ c :: rest, d.isDigit = true)
    (hne : rest ≠ []) :
    wholeNumber? (Binary64.scientific (c :: rest) k) =
      some (.decimal (.ofDecimal false (digitsNumber (c :: rest)) (k - rest.length))) := by
  obtain ⟨hc, hrest⟩ := List.forall_mem_cons.1 hdigits
  rw [scientific_pointed hne, wholeNumber?, readNumber_decimal (List.forall_mem_singleton.2 hc)
    (List.cons_ne_nil c []) hrest endsDigits_exponentText, readExponent_exponentText]
  rfl

/-- A single digit with an exponent is not read to its end. -/
theorem wholeNumber?_single {c : Char} (hc : c.isDigit = true) :
    wholeNumber? (Binary64.scientific [c] k) = none := by
  rw [scientific_single, wholeNumber?, readNumber_integer (List.forall_mem_singleton.2 hc)
    (List.cons_ne_nil c []) endsDigits_exponentText (by simp [exponentText])]
  rfl

/-- A number is written as a single digit with an exponent. -/
def Pointless (m : Nat) (e : Int) : Prop :=
  (Binary64.shortest m e).1 < 10 ∧ ((Binary64.shortest m e).2 < -4 ∨ 16 ≤ (Binary64.shortest m e).2)

/-- The text of a positive number. -/
def magnitudeText (m : Nat) (e : Int) : List Char :=
  let digits := Nat.toDigits 10 (Binary64.shortest m e).1
  let k := (Binary64.shortest m e).2 + digits.length - 1
  if k < -4 || k ≥ 16 then Binary64.scientific digits k else Binary64.positional digits k

theorem decimalText_eq (hm : 0 < m) (s : Bool) :
    (Binary64.finite s m e).decimalText.toList = (if s then ['-'] else []) ++ magnitudeText m e := by
  rw [Binary64.decimalText, if_neg (by simpa using hm.ne')]
  exact String.toList_ofList

theorem ofDecimal_shortest {n : Nat} {p : Int} (h : Binary64.Held m e) (hm : 0 < m)
    (hvalue : (n : ℚ) * 10 ^ p = (Binary64.shortest m e).1 * 10 ^ (Binary64.shortest m e).2) :
    Binary64.ofDecimal false n p = .finite false m e := by
  obtain ⟨hpos, hrounds⟩ := Binary64.shortest_roundsTo h hm
  have hn : 0 < n := by
    refine Nat.pos_of_ne_zero fun hzero => ?_
    rw [hzero, Nat.cast_zero, zero_mul] at hvalue
    have hpositive : (0 : ℚ) < (Binary64.shortest m e).1 * 10 ^ (Binary64.shortest m e).2 :=
      mul_pos (by exact_mod_cast hpos) (by positivity)
    exact hpositive.ne hvalue
  exact (Binary64.ofDecimal_eq_finite_iff hn).2 ⟨rfl, h, hvalue ▸ hrounds⟩

theorem head?_magnitudeText (m : Nat) (e : Int) : (magnitudeText m e).head? ≠ some '-' := by
  obtain ⟨c, rest, hdigits, hall, -⟩ := exists_digits (Binary64.shortest m e).1
  rw [magnitudeText, hdigits]
  split
  · exact head?_ne_minus (hall c List.mem_cons_self)
  · obtain ⟨whole, fraction, htext, hwhole, hne, -⟩ := exists_pointed hall (List.cons_ne_nil c rest)
      ((Binary64.shortest m e).2 + ((c :: rest).length : Int) - 1)
    obtain ⟨d, others, rfl⟩ := List.exists_cons_of_ne_nil hne
    rw [htext]
    exact head?_ne_minus (hwhole d List.mem_cons_self)

/-- **A decimal is read as the number that it was written for, if it has its point.** -/
theorem wholeNumber?_magnitudeText (h : Binary64.Held m e) (hm : 0 < m) (hpoint : ¬Pointless m e) :
    wholeNumber? (magnitudeText m e) = some (.decimal (.finite false m e)) ∧ '.' ∈ magnitudeText m e := by
  obtain ⟨c, rest, hdigits, hall, hnumber⟩ := exists_digits (Binary64.shortest m e).1
  rw [magnitudeText, hdigits]
  split
  · next hbeyond =>
    simp only [Bool.or_eq_true, decide_eq_true_eq, List.length_cons] at hbeyond
    have hne : rest ≠ [] := by
      rintro rfl
      refine hpoint ⟨?_, by simpa using hbeyond⟩
      have hone : (Nat.toDigits 10 (Binary64.shortest m e).1).length ≤ 1 := by rw [hdigits]; exact le_rfl
      simpa using (Nat.length_toDigits_le_iff (by decide) Nat.one_pos).1 hone
    refine ⟨?_, by rw [scientific_pointed hne]; simp⟩
    rw [wholeNumber?_scientific hall hne, hnumber, ofDecimal_shortest h hm]
    congr 2
    rw [List.length_cons]
    omega
  · obtain ⟨whole, fraction, htext, hwhole, hne, hfraction, hvalue⟩ :=
      exists_pointed hall (List.cons_ne_nil c rest)
        ((Binary64.shortest m e).2 + ((c :: rest).length : Int) - 1)
    rw [htext]
    refine ⟨?_, by simp⟩
    rw [hnumber] at hvalue
    rw [wholeNumber?, readNumber_pointed hwhole hne hfraction, ofDecimal_shortest h hm (hvalue.trans ?_)]
    congr 2
    omega

theorem wholeNumber?_pointless (hpoint : Pointless m e) : wholeNumber? (magnitudeText m e) = none := by
  rw [magnitudeText, Nat.toDigits_of_lt_base hpoint.1, if_pos]
  · exact wholeNumber?_single (by rw [Nat.isDigit_digitChar]; exact decide_eq_true hpoint.1)
  · simpa using hpoint.2

/-- A number other than zero that a single digit with an exponent denotes, and an exponent beyond those that
numbers are written positionally at. -/
def SingleDigit (x : Binary64) : Prop :=
  x.isZero = false ∧ ∃ s d k, 0 < d ∧ d < 10 ∧ (k < -4 ∨ 16 ≤ k) ∧ x = .ofDecimal s d k

theorem singleDigit_iff (h : Binary64.Held m e) (s : Bool) :
    SingleDigit (.finite s m e) ↔ 0 < m ∧ Pointless m e := by
  constructor
  · rintro ⟨hzero, s', d, k, hpos, hdigit, hk, heq⟩
    have hm : 0 < m := Nat.pos_of_ne_zero (by simpa [Binary64.isZero] using hzero)
    have hrounds := ((Binary64.ofDecimal_eq_finite_iff hpos).1 heq.symm).2.2
    have hshort := (Binary64.shortest_lt_ten_iff h hm).2 ⟨d, k, hpos, hdigit, hrounds⟩
    exact ⟨hm, hshort, Binary64.shortest_exponent_beyond h hm hshort hpos hdigit hk hrounds⟩
  · rintro ⟨hm, hdigit, hk⟩
    obtain ⟨hpos, hrounds⟩ := Binary64.shortest_roundsTo h hm
    refine ⟨by simpa [Binary64.isZero] using hm.ne', s, _, _, hpos, hdigit, hk, ?_⟩
    exact ((Binary64.ofDecimal_eq_finite_iff hpos).2 ⟨rfl, h, hrounds⟩).symm

/-- **A decimal is read as it was written just if it has its point.** Without the point it is no number. -/
theorem numberText?_decimalText (h : Binary64.Held m e) (s : Bool) :
    (¬SingleDigit (.finite s m e) →
      numberText? (Binary64.finite s m e).decimalText.toList = some (.decimal (.finite s m e)) ∧
        '.' ∈ (Binary64.finite s m e).decimalText.toList) ∧
    (SingleDigit (.finite s m e) → numberText? (Binary64.finite s m e).decimalText.toList = none) := by
  rw [singleDigit_iff h]
  rcases Nat.eq_zero_or_pos m with rfl | hm
  · obtain rfl : e = Binary64.leastExponent := h.full.resolve_left (by decide)
    refine ⟨fun _ => ?_, fun hpos => absurd hpos.1 (lt_irrefl 0)⟩
    cases s with
    | true => exact ⟨rfl, by decide⟩
    | false => exact ⟨rfl, by decide⟩
  · rw [decimalText_eq hm, numberText?_signed (head?_magnitudeText m e)]
    constructor
    · intro hpoint
      obtain ⟨hread, hmem⟩ := wholeNumber?_magnitudeText h hm fun hless => hpoint ⟨hm, hless⟩
      rw [hread]
      refine ⟨?_, List.mem_append_right _ hmem⟩
      cases s with
      | true => rfl
      | false => rfl
    · rintro ⟨-, hless⟩
      rw [wholeNumber?_pointless hless]
      rfl

/-! ### Characters -/

/-- The characters that texts of numbers are made of. -/
def isNumeric (c : Char) : Bool := c.isDigit || c == '-' || c == '+' || c == '.' || c == 'e'

theorem isNumeric_of_isDigit {cs : List Char} (h : ∀ c ∈ cs, c.isDigit = true) :
    ∀ c ∈ cs, isNumeric c = true := by
  intro c hc
  rw [isNumeric, h c hc]
  rfl

theorem isNumeric_sign {body : List Char} (h : ∀ c ∈ body, isNumeric c = true) (negative : Bool) :
    ∀ c ∈ (if negative then ['-'] else []) ++ body, isNumeric c = true := by
  cases negative with
  | true => exact List.forall_mem_cons.2 ⟨by decide, h⟩
  | false => exact h

theorem isNumeric_intText (n : Int) : ∀ c ∈ (Value.intText n).toList, isNumeric c = true := by
  have hsigned := isNumeric_sign (isNumeric_of_isDigit (isDigit_toDigits (n := n.natAbs))) (n < 0)
  rw [Value.intText, String.toList_ofList]
  simpa only [decide_eq_true_eq] using hsigned

theorem isNumeric_exponentText : ∀ c ∈ exponentText k, isNumeric c = true := by
  rw [exponentText, List.forall_mem_cons, List.forall_mem_cons]
  refine ⟨by decide, by split <;> decide, isNumeric_of_isDigit ?_⟩
  exact List.forall_mem_append.2 ⟨isDigit_zeros, isDigit_toDigits⟩

theorem isNumeric_magnitudeText (m : Nat) (e : Int) : ∀ c ∈ magnitudeText m e, isNumeric c = true := by
  obtain ⟨c, rest, hdigits, hall, -⟩ := exists_digits (Binary64.shortest m e).1
  have hnumeric := List.forall_mem_cons.1 (isNumeric_of_isDigit hall)
  have hfirst : ∀ d ∈ [c], isNumeric d = true := List.forall_mem_singleton.2 hnumeric.1
  rw [magnitudeText, hdigits]
  split
  · rcases eq_or_ne rest [] with rfl | hne
    · rw [scientific_single]
      exact List.forall_mem_append.2 ⟨hfirst, isNumeric_exponentText⟩
    · rw [scientific_pointed hne]
      refine List.forall_mem_append.2 ⟨hfirst, List.forall_mem_cons.2 ⟨by decide, ?_⟩⟩
      exact List.forall_mem_append.2 ⟨hnumeric.2, isNumeric_exponentText⟩
  · obtain ⟨whole, fraction, htext, hwhole, -, hfraction, -⟩ := exists_pointed hall (List.cons_ne_nil c rest)
      ((Binary64.shortest m e).2 + ((c :: rest).length : Int) - 1)
    rw [htext, List.forall_mem_append, List.forall_mem_cons]
    exact ⟨isNumeric_of_isDigit hwhole, by decide, isNumeric_of_isDigit hfraction⟩

theorem isNumeric_decimalText (s : Bool) (m : Nat) (e : Int) :
    ∀ c ∈ (Binary64.finite s m e).decimalText.toList, isNumeric c = true := by
  rcases Nat.eq_zero_or_pos m with rfl | hm
  · have hzero : (Binary64.finite s 0 e).decimalText.toList = (if s then ['-'] else []) ++ ['0', '.', '0'] :=
      String.toList_ofList
    rw [hzero]
    exact isNumeric_sign (by simp [isNumeric]) s
  · rw [decimalText_eq hm]
    exact isNumeric_sign (isNumeric_magnitudeText m e) s

/-! ### Integers with a place behind the point -/

theorem natural_iff {a : Nat} :
    (a : ℚ) = m * 2 ^ e ↔ a * twoTo (-e).toNat = m * twoTo e.toNat := by
  have hpos : (0 : ℚ) < twoTo (-e).toNat := by exact_mod_cast twoTo_pos _
  rw [zpow_eq_ratio two_ne_zero, ← cast_twoTo, ← cast_twoTo, ← mul_div_assoc, eq_div_iff hpos.ne']
  norm_cast

theorem toInt?_eq_some_iff {s : Bool} {n : Int} :
    (Binary64.finite s m e).toInt? = some n ↔ ∃ a : Nat, (a : ℚ) = m * 2 ^ e ∧ Binary64.signed s a = n := by
  simp only [natural_iff]
  rw [Binary64.toInt?]
  split
  · next he =>
    rw [show (-e).toNat = 0 by omega, twoTo_zero]
    simp
  · next he =>
    rw [show e.toNat = 0 by omega, twoTo_zero, mul_one]
    split
    · next hdivides =>
      have hexact := Nat.div_mul_cancel (Nat.dvd_of_mod_eq_zero (eq_of_beq hdivides))
      rw [Option.some_inj]
      constructor
      · exact fun hn => ⟨_, hexact, hn⟩
      · rintro ⟨a, rfl, hn⟩
        rwa [Nat.mul_div_cancel _ (twoTo_pos _)]
    · next hdivides =>
      refine iff_of_false (by simp) ?_
      rintro ⟨a, rfl, -⟩
      exact hdivides (beq_iff_eq.2 (Nat.mul_mod_left _ _))

/-- **An integer is read as it was written with a place behind the point.** It is one that floating point
holds. -/
theorem numberText?_onePlace {s : Bool} {n : Int} (h : Binary64.Held m e)
    (hn : (Binary64.finite s m e).toInt? = some n) :
    (∃ y, numberText? (Value.intText n ++ ".0").toList = some (.decimal y) ∧ y.toInt? = some n) ∧
      '.' ∈ (Value.intText n ++ ".0").toList := by
  obtain ⟨a, ha, rfl⟩ := toInt?_eq_some_iff.1 hn
  have habs : (Binary64.signed s a).natAbs = a := by cases s <;> simp [Binary64.signed]
  have htext : (Value.intText (Binary64.signed s a) ++ ".0").toList =
      (if decide (Binary64.signed s a < 0) then ['-'] else []) ++ (Nat.toDigits 10 a ++ ['.', '0']) := by
    rw [String.toList_append, Value.intText, String.toList_ofList, habs]
    simp
  obtain ⟨c, rest, hdigits, hall, hnumber⟩ := exists_digits a
  have hread : readNumber (Nat.toDigits 10 a ++ ['.', '0']) =
      some (.decimal (.ofDecimal false (a * 10) (-1)), []) := by
    rw [readNumber_pointed isDigit_toDigits Nat.toDigits_ne_nil (by simp), digitsNumber_append,
      digitsNumber_toDigits]
    rfl
  have hminus : (Nat.toDigits 10 a ++ ['.', '0']).head? ≠ some '-' := by
    rw [hdigits]
    exact head?_ne_minus (hall c List.mem_cons_self)
  rw [htext]
  refine ⟨?_, by simp⟩
  rw [numberText?_signed hminus, wholeNumber?, hread]
  rcases Nat.eq_zero_or_pos a with rfl | hpos
  · refine ⟨.zero false, by cases s <;> rfl, toInt?_eq_some_iff.2 ⟨0, by simp, ?_⟩⟩
    cases s <;> rfl
  · have hvalue : ((a * 10 : Nat) : ℚ) * 10 ^ (-1 : Int) = m * 2 ^ e := by
      rw [← ha]
      push_cast
      rw [zpow_neg_one, mul_inv_cancel_right₀ (by norm_num)]
    have hnearest : Binary64.ofDecimal false (a * 10) (-1) = .finite false m e :=
      (Binary64.ofDecimal_eq_finite_iff (Nat.mul_pos hpos (by decide))).2
        ⟨rfl, h, hvalue ▸ Binary64.roundsTo_self m e⟩
    have hsign : decide (Binary64.signed s a < 0) = s := by
      cases s <;> simp [Binary64.signed, hpos]
    refine ⟨.finite s m e, ?_, hn⟩
    rw [hnearest, hsign]
    cases s <;> rfl

end Decimals

end SettingsHarvest.Nix
