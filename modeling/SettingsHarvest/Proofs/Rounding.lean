import Mathlib.Tactic.Linarith
import Mathlib.Tactic.Ring
import SettingsHarvest.Number.Binary64

/-! What rounding answers.

A ratio rounds to a number with a mantissa below 2^53 and an exponent of at most the greatest, or to an
infinity (`wellFormed_ofRatio`). It does not become infinite as long as it lies below the middle between
the greatest number and the next step (`isFinite_ofRatio`). All arithmetic is rounding, so its results
are well-formed without a look at the operands, and a finite number has a finite successor. -/
namespace SettingsHarvest

theorem twoTo_zero : twoTo 0 = 1 := rfl

theorem twoTo_add (m n : Nat) : twoTo (m + n) = twoTo m * twoTo n := Nat.pow_add 2 m n

theorem twoTo_pos (n : Nat) : 0 < twoTo n := Nat.two_pow_pos n

theorem twoTo_le {m n : Nat} (h : m ≤ n) : twoTo m ≤ twoTo n := Nat.pow_le_pow_right (by decide) h

theorem twoTo_lt {m n : Nat} (h : m < n) : twoTo m < twoTo n := Nat.pow_lt_pow_right (by decide) h

theorem log2_lt_of_lt_twoTo {m n : Nat} (h : m < twoTo n) (hn : 0 < n) : Nat.log2 m < n := by
  rcases Nat.eq_zero_or_pos m with rfl | hm
  · rwa [Nat.log2_zero]
  · exact (Nat.log2_lt hm.ne').2 h

namespace Binary64

/-- The mantissa of a finite number is below 2^53, and its exponent at most the greatest. -/
def WellFormed : Binary64 → Prop
  | finite _ m e => m < twoTo 53 ∧ e ≤ greatestExponent
  | infinite _ | nan => True

variable {negative s t : Bool} {num den m n q : Nat} {e : Int} {x y : Binary64}

/-! ### Units -/

theorem scale_eq : scale num den e = (num * twoTo (-e).toNat, den * twoTo e.toNat) := by
  unfold scale
  split
  · next h => rw [show (-e).toNat = 0 by omega, twoTo_zero, Nat.mul_one]
  · next h => rw [show e.toNat = 0 by omega, twoTo_zero, Nat.mul_one]

/-- A ratio rounded down to units of `2 ^ e`. -/
def inUnitsOf (num den : Nat) (e : Int) : Nat := (scale num den e).1 / (scale num den e).2

/-- The highest binary digits of both terms bound a ratio. -/
theorem inUnitsOf_lt {k : Nat} (h : (Nat.log2 num : Int) + 1 ≤ k + Nat.log2 den + e) :
    inUnitsOf num den e < twoTo k := by
  rw [inUnitsOf, scale_eq]
  rcases Nat.eq_zero_or_pos den with rfl | hden
  · simpa using twoTo_pos k
  · rw [Nat.div_lt_iff_lt_mul (Nat.mul_pos hden (twoTo_pos _))]
    have hnum : num < twoTo (Nat.log2 num + 1) := Nat.lt_log2_self
    have hlog : twoTo (Nat.log2 den) ≤ den := Nat.log2_self_le hden.ne'
    calc num * twoTo (-e).toNat
        < twoTo (Nat.log2 num + 1) * twoTo (-e).toNat := Nat.mul_lt_mul_of_pos_right hnum (twoTo_pos _)
      _ = twoTo (Nat.log2 num + 1 + (-e).toNat) := (twoTo_add _ _).symm
      _ ≤ twoTo (k + (Nat.log2 den + e.toNat)) := twoTo_le (by omega)
      _ = twoTo k * (twoTo (Nat.log2 den) * twoTo e.toNat) := by rw [twoTo_add, twoTo_add]
      _ ≤ twoTo k * (den * twoTo e.toNat) :=
          Nat.mul_le_mul_left _ (Nat.mul_le_mul_right _ hlog)

/-! ### Rounding -/

theorem roundDiv_le_succ : roundDiv m n ≤ m / n + 1 := by
  unfold roundDiv
  dsimp only
  split <;> omega

/-- What lies below the middle behind `q` rounds to no more than `q`. -/
theorem roundDiv_le (h : 2 * m < (2 * q + 1) * n) : roundDiv m n ≤ q := by
  have hn : 0 < n := Nat.pos_of_ne_zero fun hn => by simp [hn] at h
  have hquotient : m / n < q + 1 := by
    rw [Nat.div_lt_iff_lt_mul hn]
    nlinarith
  rcases Nat.lt_succ_iff_lt_or_eq.1 hquotient with hlt | heq
  · exact roundDiv_le_succ.trans hlt
  · have hdown : 2 * (m % n) < n := by
      have hsplit := Nat.div_add_mod m n
      rw [heq] at hsplit
      nlinarith
    unfold roundDiv
    rw [heq]
    have hkeep : ¬(decide (2 * (m % n) > n) || (2 * (m % n) == n && q % 2 == 1)) = true := by
      simp only [Bool.or_eq_true, decide_eq_true_eq, Bool.and_eq_true, beq_iff_eq]
      omega
    dsimp only
    rw [if_neg hkeep]

/-- The exponent that a ratio is first tried at. -/
def trialExponent (num den : Nat) : Int :=
  max ((Nat.log2 num : Int) - (Nat.log2 den : Int) - 53) leastExponent

/-- The exponent that a ratio is rounded at. -/
def unitExponent (num den : Nat) : Int :=
  if inUnitsOf num den (trialExponent num den) ≥ twoTo 53 then trialExponent num den + 1
  else trialExponent num den

/-- The mantissa that it rounds to there. -/
def unitMantissa (num den : Nat) : Nat :=
  roundDiv (scale num den (unitExponent num den)).1 (scale num den (unitExponent num den)).2

/-- Mantissa and exponent of the result; a mantissa that rounds up to 2^53 is halved. -/
def rounded (num den : Nat) : Nat × Int :=
  if unitMantissa num den == twoTo 53 then (twoTo 52, unitExponent num den + 1)
  else (unitMantissa num den, unitExponent num den)

theorem ofRatio_eq (h : num ≠ 0) : ofRatio negative num den =
    if (rounded num den).2 > greatestExponent then infinite negative
    else finite negative (rounded num den).1 (rounded num den).2 := by
  have hnum : (num == 0) = false := beq_eq_false_iff_ne.2 h
  rw [ofRatio, hnum, if_neg (by decide)]
  rfl

theorem inUnitsOf_unitExponent_lt : inUnitsOf num den (unitExponent num den) < twoTo 53 := by
  unfold unitExponent
  split
  · refine inUnitsOf_lt ?_
    unfold trialExponent
    omega
  · omega

theorem unitMantissa_le : unitMantissa num den ≤ twoTo 53 :=
  roundDiv_le_succ.trans inUnitsOf_unitExponent_lt

theorem rounded_lt : (rounded num den).1 < twoTo 53 := by
  unfold rounded
  split
  · exact twoTo_lt (by decide)
  · next hbelow => exact lt_of_le_of_ne unitMantissa_le fun heq => hbelow (beq_iff_eq.2 heq)

/-- **Rounding answers well-formed numbers.** -/
theorem wellFormed_ofRatio : (ofRatio negative num den).WellFormed := by
  rcases eq_or_ne num 0 with rfl | hnum
  · exact ⟨twoTo_pos 53, by decide⟩
  · rw [ofRatio_eq hnum]
    split
    · trivial
    · next hsmall => exact ⟨rounded_lt, not_lt.1 hsmall⟩

/-! ### Overflow -/

theorem scale_greatest : scale num den 971 = (num, den * twoTo 971) := rfl

theorem unitExponent_le (h : num < twoTo 1024 * den) : unitExponent num den ≤ greatestExponent := by
  have hden : den ≠ 0 := by
    rintro rfl
    rw [Nat.mul_zero] at h
    exact Nat.not_lt_zero _ h
  have hlog : Nat.log2 num < 1024 + (Nat.log2 den + 1) := by
    have hlt : den < twoTo (Nat.log2 den + 1) := Nat.lt_log2_self
    refine log2_lt_of_lt_twoTo ?_ (by omega)
    rw [twoTo_add]
    exact h.trans_le (Nat.mul_le_mul_left _ hlt.le)
  have htrial : trialExponent num den ≤ 971 := by
    rw [trialExponent, leastExponent]
    omega
  unfold unitExponent greatestExponent
  split
  · next hlarge =>
    refine Int.add_one_le_of_lt (lt_of_le_of_ne htrial fun heq => ?_)
    rw [heq, inUnitsOf, scale_greatest] at hlarge
    have hpos : 0 < den * twoTo 971 := Nat.mul_pos (Nat.pos_of_ne_zero hden) (twoTo_pos _)
    have hle : twoTo 53 * (den * twoTo 971) ≤ num := (Nat.le_div_iff_mul_le hpos).1 hlarge
    have hsplit : twoTo 1024 = twoTo 53 * twoTo 971 := twoTo_add 53 971
    rw [hsplit] at h
    nlinarith
  · exact htrial

/-- What lies below the middle between the greatest number and the next step rounds to a number. -/
theorem isFinite_ofRatio (h : 2 * num < (2 * (twoTo 53 - 1) + 1) * (den * twoTo 971)) :
    (ofRatio negative num den).isFinite = true := by
  rcases eq_or_ne num 0 with rfl | hnum
  · rfl
  · have hpos := twoTo_pos 53
    have hbound : num < twoTo 1024 * den := by
      have hsplit : twoTo 1024 = twoTo 53 * twoTo 971 := twoTo_add 53 971
      have hle : 2 * (twoTo 53 - 1) + 1 ≤ 2 * twoTo 53 := by omega
      have hscaled := Nat.mul_le_mul_right (den * twoTo 971) hle
      rw [hsplit]
      nlinarith
    have hexponent := unitExponent_le hbound
    have hrounded : (rounded num den).2 ≤ greatestExponent := by
      unfold rounded
      split
      · next hround =>
        -- Rounding up to 2^53 at the greatest exponent takes a ratio above the middle.
        refine Int.add_one_le_of_lt (lt_of_le_of_ne hexponent fun heq => ?_)
        have hle : unitMantissa num den ≤ twoTo 53 - 1 := by
          rw [unitMantissa, heq, greatestExponent, scale_greatest]
          exact roundDiv_le h
        rw [beq_iff_eq.1 hround] at hle
        omega
      · exact hexponent
    rw [ofRatio_eq hnum, if_neg (not_lt.2 hrounded)]
    rfl

/-! ### Arithmetic -/

theorem wellFormed_zero : (zero s).WellFormed := ⟨twoTo_pos 53, by decide⟩

theorem wellFormed_ofInt {k : Int} : (ofInt k).WellFormed := wellFormed_ofRatio

theorem wellFormed_ofUnits {k : Int} : (ofUnits s k e).WellFormed := by
  unfold ofUnits
  split
  · exact wellFormed_zero
  · exact wellFormed_ofRatio

theorem wellFormed_ofDecimal {digits : Nat} {power : Int} :
    (ofDecimal negative digits power).WellFormed := by
  unfold ofDecimal
  dsimp only
  split
  · exact wellFormed_zero
  · split
    · trivial
    · split
      · exact wellFormed_zero
      · split
        · exact wellFormed_ofRatio
        · exact wellFormed_ofRatio

theorem WellFormed.neg (h : x.WellFormed) : x.neg.WellFormed := by
  cases x with
  | finite => exact h
  | infinite | nan => trivial

theorem wellFormed_add : (x.add y).WellFormed := by
  unfold Binary64.add
  split
  · exact wellFormed_ofUnits
  · trivial
  · trivial
  · split <;> trivial
  · trivial
  · trivial

theorem wellFormed_mul : (x.mul y).WellFormed := by
  unfold Binary64.mul
  split
  · exact wellFormed_ofUnits
  · trivial
  · trivial
  · split <;> trivial
  · split <;> trivial
  · trivial

theorem wellFormed_div : (x.div y).WellFormed := by
  unfold Binary64.div
  split
  · dsimp only
    split
    · exact wellFormed_zero
    · exact wellFormed_ofRatio
  · trivial
  · trivial
  · trivial
  · exact wellFormed_zero
  · trivial

theorem WellFormed.remainder (h : x.WellFormed) : (x.remainder y).WellFormed := by
  unfold Binary64.remainder
  split
  · exact wellFormed_ofUnits
  · trivial
  · trivial
  · exact h
  · trivial

/-- A finite number has a finite successor: even the greatest is not one rounding away from infinity. -/
theorem isFinite_add_one (hx : x.WellFormed) (hfinite : x.isFinite = true) :
    (x.add (.ofInt 1)).isFinite = true := by
  obtain ⟨s, m, e, rfl⟩ : ∃ s m e, x = finite s m e := by
    cases x with
    | finite s m e => exact ⟨s, m, e, rfl⟩
    | infinite | nan => cases hfinite
  obtain ⟨hm, he⟩ := hx
  have hone : ofInt 1 = finite false (twoTo 52) (-52) := rfl
  rw [hone, add, ofUnits]
  generalize hunit : min e (-52) = u
  dsimp only
  split
  · rfl
  · rw [if_neg (by omega)]
    refine isFinite_ofRatio ?_
    dsimp only
    -- In units of `2 ^ u` one is the whole denominator, and the number at most the greatest one.
    have hself : m * twoTo (e - u).toNat ≤ (twoTo 53 - 1) * (twoTo 971 * twoTo (-u).toNat) := by
      rw [← twoTo_add]
      have hle : twoTo (e - u).toNat ≤ twoTo (971 + (-u).toNat) := by
        unfold greatestExponent at he
        exact twoTo_le (by omega)
      exact Nat.mul_le_mul (by omega) hle
    have hstep : twoTo 52 * twoTo (-52 - u).toNat = twoTo (-u).toNat := by
      rw [← twoTo_add]
      congr 1
      omega
    have habs : (inUnits s m e u + inUnits false (twoTo 52) (-52) u).natAbs ≤
        m * twoTo (e - u).toNat + twoTo (-u).toNat := by
      refine (Int.natAbs_add_le _ _).trans ?_
      rw [← hstep]
      cases s <;> simp [inUnits, signed, Int.natAbs_mul]
    have hroom : 2 * twoTo (-u).toNat < twoTo 971 * twoTo (-u).toNat :=
      Nat.mul_lt_mul_of_pos_right (show 2 < twoTo 971 from twoTo_lt (m := 1) (by decide)) (twoTo_pos _)
    generalize twoTo 971 = greatest at *
    have hsum : (2 * (twoTo 53 - 1) + 1) * (twoTo (-u).toNat * greatest) =
        2 * ((twoTo 53 - 1) * (greatest * twoTo (-u).toNat)) + greatest * twoTo (-u).toNat := by ring
    omega

end Binary64
end SettingsHarvest
