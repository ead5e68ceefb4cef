import Mathlib.Algebra.Order.Field.Power
import Mathlib.Algebra.Order.Field.Rat
import Mathlib.Tactic.FieldSimp
import Mathlib.Tactic.NormNum
import Mathlib.Tactic.Positivity
import SettingsHarvest.Proofs.Rounding

/-! Which numbers rational numbers round to.

Around every number lies an interval of rationals that round to it: half a unit to either side, and a
quarter below a power of two, whose lower neighbour is nearer. The ends belong to it where the mantissa
is even (`RoundsTo`). The intervals of two numbers do not meet (`RoundsTo.unique`), and `ofRatio` answers
the number whose interval a ratio lies in, and no other one (`ofRatio_eq_finite_iff`). The same goes for
decimals, although the largest and the smallest of them are not even tried (`ofDecimal_eq_finite_iff`). -/
namespace SettingsHarvest

/-! ### Powers -/

theorem cast_twoTo (n : Nat) : (twoTo n : ℚ) = 2 ^ n := Nat.cast_pow 2 n

theorem cast_tenTo (n : Nat) : (tenTo n : ℚ) = 10 ^ n := Nat.cast_pow 10 n

theorem tenTo_pos (n : Nat) : 0 < tenTo n := Nat.pow_pos (by decide)

theorem zpow_eq_ratio {b : ℚ} (hb : b ≠ 0) (k : Int) : b ^ k = b ^ k.toNat / b ^ (-k).toNat := by
  rw [← zpow_natCast, ← zpow_natCast, ← zpow_sub₀ hb, Int.toNat_sub_toNat_neg]

namespace Binary64

/-! ### Intervals -/

/-- Mantissa and exponent as numbers have them: the mantissa is full unless the exponent is the least. -/
structure Canonical (m : Nat) (e : Int) : Prop where
  below : m < twoTo 53
  least : leastExponent ≤ e
  full : twoTo 52 ≤ m ∨ e = leastExponent

/-- Mantissa and exponent of a finite number. -/
structure Held (m : Nat) (e : Int) : Prop extends Canonical m e where
  greatest : e ≤ greatestExponent

/-- How many quarters of a unit the interval of a number reaches below it. -/
def quartersBelow (m : Nat) (e : Int) : Nat := if m == twoTo 52 && e > leastExponent then 1 else 2

/-- The lower end of the interval of a number. -/
def lowEnd (m : Nat) (e : Int) : ℚ := (4 * m - quartersBelow m e) * 2 ^ (e - 2)

/-- The upper end of the interval of a number. -/
def highEnd (m : Nat) (e : Int) : ℚ := (4 * m + 2) * 2 ^ (e - 2)

/-- A rational lies in the interval of a number. -/
def RoundsTo (r : ℚ) (m : Nat) (e : Int) : Prop :=
  if m % 2 = 0 then lowEnd m e ≤ r ∧ r ≤ highEnd m e else lowEnd m e < r ∧ r < highEnd m e

section Intervals

variable {m m' : Nat} {e e' : Int} {r a b : ℚ}

theorem quartersBelow_le : quartersBelow m e ≤ 2 := by
  unfold quartersBelow
  split <;> decide

theorem quartersBelow_power (h : leastExponent < e) : quartersBelow (twoTo 52) e = 1 := by
  simp [quartersBelow, h]

theorem quartersBelow_cases (m : Nat) (e : Int) :
    quartersBelow m e = 2 ∨ m = twoTo 52 ∧ leastExponent < e ∧ quartersBelow m e = 1 := by
  unfold quartersBelow
  split
  · next h =>
    rw [Bool.and_eq_true, beq_iff_eq, decide_eq_true_eq] at h
    exact .inr ⟨h.1, h.2, rfl⟩
  · exact .inl rfl

theorem unit_pos (e : Int) : (0 : ℚ) < 2 ^ (e - 2) := by positivity

theorem four_units (e : Int) : (2 : ℚ) ^ e = 4 * 2 ^ (e - 2) := by
  rw [zpow_sub₀ two_ne_zero]
  ring

theorem RoundsTo.bounds (h : RoundsTo r m e) : lowEnd m e ≤ r ∧ r ≤ highEnd m e := by
  unfold RoundsTo at h
  split at h
  · exact h
  · exact ⟨h.1.le, h.2.le⟩

theorem RoundsTo.strict (h : RoundsTo r m e) (hodd : m % 2 = 1) : lowEnd m e < r ∧ r < highEnd m e := by
  rw [RoundsTo, if_neg (by omega)] at h
  exact h

theorem roundsTo_of_strict (hlow : lowEnd m e < r) (hhigh : r < highEnd m e) : RoundsTo r m e := by
  unfold RoundsTo
  split
  · exact ⟨hlow.le, hhigh.le⟩
  · exact ⟨hlow, hhigh⟩

/-- What lies between two rationals that round to a number rounds to it, too. -/
theorem RoundsTo.between (ha : RoundsTo a m e) (hb : RoundsTo b m e) (har : a ≤ r) (hrb : r ≤ b) :
    RoundsTo r m e := by
  unfold RoundsTo at *
  split at ha
  · next heven =>
    rw [if_pos heven] at hb ⊢
    exact ⟨ha.1.trans har, hrb.trans hb.2⟩
  · next hodd =>
    rw [if_neg hodd] at hb ⊢
    exact ⟨ha.1.trans_le har, hrb.trans_lt hb.2⟩

theorem lowEnd_pos (hm : 0 < m) : 0 < lowEnd m e := by
  have hq : quartersBelow m e ≤ 2 := quartersBelow_le
  refine mul_pos (sub_pos.2 ?_) (unit_pos e)
  exact_mod_cast (by omega : quartersBelow m e < 4 * m)

theorem self_between (m : Nat) (e : Int) :
    lowEnd m e < m * 2 ^ e ∧ (m * 2 ^ e : ℚ) < highEnd m e := by
  have hq : (0 : ℚ) < quartersBelow m e := by
    unfold quartersBelow
    split <;> norm_num
  have hunit := unit_pos e
  rw [lowEnd, highEnd, four_units e]
  constructor <;> nlinarith

theorem roundsTo_self (m : Nat) (e : Int) : RoundsTo (m * 2 ^ e) m e :=
  roundsTo_of_strict (self_between m e).1 (self_between m e).2

/-- Two intervals with a common element meet; only two even mantissas share an end. -/
theorem RoundsTo.meet (h : RoundsTo r m e) (h' : RoundsTo r m' e') :
    lowEnd m' e' ≤ highEnd m e ∧ (m % 2 = 1 ∨ m' % 2 = 1 → lowEnd m' e' < highEnd m e) := by
  refine ⟨h'.bounds.1.trans h.bounds.2, ?_⟩
  rintro (hodd | hodd)
  · exact h'.bounds.1.trans_lt (h.strict hodd).2
  · exact (h'.strict hodd).1.trans_le h.bounds.2

theorem RoundsTo.mantissa_le (h : RoundsTo r m e) (h' : RoundsTo r m' e) : m' ≤ m := by
  by_contra hlt
  obtain ⟨hle, hstrict⟩ := h.meet h'
  have hunit := unit_pos e
  have hq : quartersBelow m' e ≤ 2 := quartersBelow_le
  have hends : 4 * m' ≤ 4 * m + 2 + quartersBelow m' e := by
    have hcoefficients := le_of_mul_le_mul_right hle hunit
    rw [sub_le_iff_le_add] at hcoefficients
    exact_mod_cast hcoefficients
  have hlast : m % 2 = 1 ∨ m' % 2 = 1 := by omega
  have hapart : 4 * m' < 4 * m + 2 + quartersBelow m' e := by
    have hcoefficients := lt_of_mul_lt_mul_right (hstrict hlast) hunit.le
    rw [sub_lt_iff_lt_add] at hcoefficients
    exact_mod_cast hcoefficients
  omega

theorem RoundsTo.exponent_le (h : RoundsTo r m e) (h' : RoundsTo r m' e') (hc : Canonical m e)
    (hc' : Canonical m' e') : e' ≤ e := by
  by_contra hlt
  have hmore : leastExponent < e' := by
    have := hc.least
    omega
  obtain ⟨hle, hstrict⟩ := h.meet h'
  have hunit := unit_pos e
  have hdouble : 2 * (2 : ℚ) ^ (e - 2) ≤ 2 ^ (e' - 2) := by
    rw [← zpow_one_add₀ two_ne_zero]
    exact zpow_le_zpow_right₀ (by norm_num) (by omega)
  -- The lower end of the one, a whole number of quarters, in units of the other.
  obtain ⟨quarters, hquarters⟩ : ∃ quarters : Nat, quarters + quartersBelow m' e' = 4 * m' := by
    refine ⟨4 * m' - quartersBelow m' e', ?_⟩
    have hq : quartersBelow m' e' ≤ 2 := quartersBelow_le
    have hfull := hc'.full.resolve_right (by omega)
    have hpower : twoTo 52 = 2 ^ 52 := rfl
    omega
  have hlow : lowEnd m' e' = quarters * 2 ^ (e' - 2) := by
    rw [lowEnd]
    congr 1
    rw [sub_eq_iff_eq_add]
    exact_mod_cast hquarters.symm
  have hscaled : quarters * (2 * (2 : ℚ) ^ (e - 2)) ≤ lowEnd m' e' := by
    rw [hlow]
    exact mul_le_mul_of_nonneg_left hdouble (Nat.cast_nonneg _)
  have hends : 2 * quarters ≤ 4 * m + 2 := by
    have hcoefficients : (2 * quarters : ℚ) ≤ 4 * m + 2 := by
      refine le_of_mul_le_mul_right ?_ hunit
      calc (2 * quarters : ℚ) * 2 ^ (e - 2) = quarters * (2 * 2 ^ (e - 2)) := by ring
        _ ≤ (4 * m + 2) * 2 ^ (e - 2) := hscaled.trans hle
    exact_mod_cast hcoefficients
  have hbound : 2 ^ 54 - 1 ≤ quarters := by
    have hfull := hc'.full.resolve_right (by omega)
    have hpower : twoTo 52 = 2 ^ 52 := rfl
    rcases hfull.eq_or_lt with heq | hgt
    · rw [← heq, quartersBelow_power hmore] at hquarters
      omega
    · have hq : quartersBelow m' e' ≤ 2 := quartersBelow_le
      omega
  have hbelow : m < 2 ^ 53 := hc.below
  have hapart : 2 * quarters < 4 * m + 2 := by
    have hcoefficients : (2 * quarters : ℚ) < 4 * m + 2 := by
      refine lt_of_mul_lt_mul_right ?_ hunit.le
      calc (2 * quarters : ℚ) * 2 ^ (e - 2) = quarters * (2 * 2 ^ (e - 2)) := by ring
        _ < (4 * m + 2) * 2 ^ (e - 2) := hscaled.trans_lt (hstrict (.inl (by omega)))
    exact_mod_cast hcoefficients
  omega

/-- **A rational rounds to one number.** -/
theorem RoundsTo.unique (h : RoundsTo r m e) (h' : RoundsTo r m' e') (hc : Canonical m e)
    (hc' : Canonical m' e') : m = m' ∧ e = e' := by
  obtain rfl := le_antisymm (h'.exponent_le h hc' hc) (h.exponent_le h' hc hc')
  exact ⟨le_antisymm (h'.mantissa_le h) (h.mantissa_le h'), rfl⟩

end Intervals

/-! ### Ratios -/

section Ratios

variable {s t : Bool} {num den m k : Nat} {e : Int}

theorem scale_pos (num : Nat) (hden : 0 < den) (e : Int) : 0 < (scale num den e).2 := by
  rw [scale_eq]
  exact Nat.mul_pos hden (twoTo_pos _)

theorem scale_ratio (num : Nat) (hden : 0 < den) (e : Int) :
    ((scale num den e).1 : ℚ) / (scale num den e).2 * 2 ^ e = num / den := by
  have hden' : (den : ℚ) ≠ 0 := by exact_mod_cast hden.ne'
  rw [scale_eq, zpow_eq_ratio two_ne_zero]
  push_cast [cast_twoTo]
  field_simp

theorem le_inUnitsOf_iff (hden : 0 < den) : k ≤ inUnitsOf num den e ↔ (k : ℚ) * 2 ^ e ≤ num / den := by
  have hpos := scale_pos num hden e
  rw [inUnitsOf, Nat.le_div_iff_mul_le hpos, ← scale_ratio num hden e,
    mul_le_mul_iff_of_pos_right (by positivity), le_div_iff₀ (by exact_mod_cast hpos)]
  norm_cast

/-- Rounded to an integer: no more than a half away, and less than that where the integer is odd. -/
theorem roundDiv_near {n d : Nat} (hd : 0 < d) :
    2 * n ≤ (2 * roundDiv n d + 1) * d ∧ 2 * roundDiv n d * d ≤ 2 * n + d ∧
      (roundDiv n d % 2 = 1 → 2 * n < (2 * roundDiv n d + 1) * d ∧ 2 * roundDiv n d * d < 2 * n + d) := by
  have hsplit := Nat.div_add_mod n d
  have hrest := Nat.mod_lt n hd
  have hup : (2 * (n / d + 1) + 1) * d = 2 * (d * (n / d)) + 3 * d := by ring
  have hup' : 2 * (n / d + 1) * d = 2 * (d * (n / d)) + 2 * d := by ring
  have hdown : (2 * (n / d) + 1) * d = 2 * (d * (n / d)) + d := by ring
  have hdown' : 2 * (n / d) * d = 2 * (d * (n / d)) := by ring
  unfold roundDiv
  dsimp only
  split
  · next h =>
    simp only [Bool.or_eq_true, decide_eq_true_eq, Bool.and_eq_true, beq_iff_eq] at h
    rw [hup, hup']
    omega
  · next h =>
    simp only [Bool.or_eq_true, decide_eq_true_eq, Bool.and_eq_true, beq_iff_eq] at h
    rw [hdown, hdown']
    omega

/-- The highest binary digits of both terms say where a ratio lies. -/
theorem log2_ratio (hnum : 0 < num) (hden : 0 < den) :
    (2 : ℚ) ^ ((Nat.log2 num : Int) - Nat.log2 den - 1) < num / den ∧
      (num / den : ℚ) < 2 ^ ((Nat.log2 num : Int) - Nat.log2 den + 1) := by
  have hden' : (0 : ℚ) < den := by exact_mod_cast hden
  have hnumLow : (2 : ℚ) ^ Nat.log2 num ≤ num := by exact_mod_cast Nat.log2_self_le hnum.ne'
  have hnumHigh : (num : ℚ) < 2 ^ (Nat.log2 num + 1) := by exact_mod_cast Nat.lt_log2_self
  have hdenLow : (2 : ℚ) ^ Nat.log2 den ≤ den := by exact_mod_cast Nat.log2_self_le hden.ne'
  have hdenHigh : (den : ℚ) < 2 ^ (Nat.log2 den + 1) := by exact_mod_cast Nat.lt_log2_self
  constructor
  · rw [lt_div_iff₀ hden']
    calc (2 : ℚ) ^ ((Nat.log2 num : Int) - Nat.log2 den - 1) * den
        < 2 ^ ((Nat.log2 num : Int) - Nat.log2 den - 1) * 2 ^ (Nat.log2 den + 1) :=
          mul_lt_mul_of_pos_left hdenHigh (by positivity)
      _ = 2 ^ Nat.log2 num := by
          rw [← zpow_natCast, ← zpow_natCast, ← zpow_add₀ two_ne_zero]
          congr 1
          push_cast
          ring
      _ ≤ num := hnumLow
  · rw [div_lt_iff₀ hden']
    calc (num : ℚ) < 2 ^ (Nat.log2 num + 1) := hnumHigh
      _ = 2 ^ ((Nat.log2 num : Int) - Nat.log2 den + 1) * 2 ^ Nat.log2 den := by
          rw [← zpow_natCast, ← zpow_natCast, ← zpow_add₀ two_ne_zero]
          congr 1
          push_cast
          ring
      _ ≤ 2 ^ ((Nat.log2 num : Int) - Nat.log2 den + 1) * den :=
          mul_le_mul_of_nonneg_left hdenLow (by positivity)

theorem least_le_unitExponent (num den : Nat) : leastExponent ≤ unitExponent num den := by
  unfold unitExponent trialExponent
  split <;> omega

/-- The exponent of a ratio is the least one, or the ratio has all 53 digits at it. -/
theorem unitExponent_full (hnum : 0 < num) (hden : 0 < den) :
    twoTo 52 ≤ inUnitsOf num den (unitExponent num den) ∨ unitExponent num den = leastExponent := by
  unfold unitExponent
  split
  · next hlarge =>
    refine .inl ((le_inUnitsOf_iff hden).2 ?_)
    refine le_trans (le_of_eq ?_) ((le_inUnitsOf_iff hden).1 hlarge)
    rw [zpow_add_one₀ two_ne_zero, cast_twoTo, cast_twoTo]
    ring
  · rcases le_total ((Nat.log2 num : Int) - Nat.log2 den - 53) leastExponent with hle | hge
    · exact .inr (max_eq_right hle)
    · refine .inl ((le_inUnitsOf_iff hden).2 (le_trans (le_of_eq ?_) (log2_ratio hnum hden).1.le))
      rw [trialExponent, max_eq_left hge, cast_twoTo, ← zpow_natCast, ← zpow_add₀ two_ne_zero]
      congr 1
      push_cast
      ring

/-- The mantissa is no more than half a unit away from the ratio, and less than that if it is odd. -/
theorem unitMantissa_near (num : Nat) (hden : 0 < den) :
    (4 * unitMantissa num den - 2) * (2 : ℚ) ^ (unitExponent num den - 2) ≤ num / den ∧
      (num / den : ℚ) ≤ highEnd (unitMantissa num den) (unitExponent num den) ∧
      (unitMantissa num den % 2 = 1 →
        (4 * unitMantissa num den - 2) * (2 : ℚ) ^ (unitExponent num den - 2) < num / den ∧
          (num / den : ℚ) < highEnd (unitMantissa num den) (unitExponent num den)) := by
  have hpos := scale_pos num hden (unitExponent num den)
  have hratio := scale_ratio num hden (unitExponent num den)
  have hunit := unit_pos (unitExponent num den)
  obtain ⟨hhigh, hlow, hodd⟩ := roundDiv_near (n := (scale num den (unitExponent num den)).1) hpos
  rw [← unitMantissa] at hhigh hlow hodd
  have hpos' : (0 : ℚ) < (scale num den (unitExponent num den)).2 := by exact_mod_cast hpos
  rw [four_units] at hratio
  unfold highEnd
  generalize unitMantissa num den = M at *
  generalize (2 : ℚ) ^ (unitExponent num den - 2) = u at *
  generalize (scale num den (unitExponent num den)).1 = n at *
  generalize (scale num den (unitExponent num den)).2 = d at *
  generalize (num / den : ℚ) = r at *
  have hr : r * d = 4 * n * u := by
    rw [← hratio]
    field_simp
  have hhigh' : (2 * n : ℚ) ≤ (2 * M + 1) * d := by exact_mod_cast hhigh
  have hlow' : (2 * M * d : ℚ) ≤ 2 * n + d := by exact_mod_cast hlow
  refine ⟨?_, ?_, fun h => ⟨?_, ?_⟩⟩
  · refine le_of_mul_le_mul_right ?_ hpos'
    rw [hr]
    nlinarith
  · refine le_of_mul_le_mul_right ?_ hpos'
    rw [hr]
    nlinarith
  · have hlow'' : (2 * M * d : ℚ) < 2 * n + d := by exact_mod_cast (hodd h).2
    refine lt_of_mul_lt_mul_right ?_ hpos'.le
    rw [hr]
    nlinarith
  · have hhigh'' : (2 * n : ℚ) < (2 * M + 1) * d := by exact_mod_cast (hodd h).1
    refine lt_of_mul_lt_mul_right ?_ hpos'.le
    rw [hr]
    nlinarith

theorem le_roundDiv {m n : Nat} : m / n ≤ roundDiv m n := by
  unfold roundDiv
  dsimp only
  split
  · exact Nat.le_succ _
  · exact le_rfl

theorem canonical_rounded (hnum : 0 < num) (hden : 0 < den) :
    Canonical (rounded num den).1 (rounded num den).2 where
  below := rounded_lt
  least := by
    have hleast := least_le_unitExponent num den
    unfold rounded
    split
    · exact hleast.trans (by omega)
    · exact hleast
  full := by
    unfold rounded
    split
    · exact .inl le_rfl
    · exact (unitExponent_full hnum hden).imp_left fun h => h.trans le_roundDiv

/-- At the next exponent the ends are those of the mantissa before it was halved, or farther out. -/
theorem roundsTo_carried (hden : 0 < den) (hcarry : unitMantissa num den = twoTo 53) :
    RoundsTo (num / den) (twoTo 52) (unitExponent num den + 1) := by
  obtain ⟨hlow, hhigh, -⟩ := unitMantissa_near num hden
  have hleast := least_le_unitExponent num den
  rw [highEnd, hcarry, cast_twoTo] at hhigh
  rw [hcarry, cast_twoTo] at hlow
  have hunit := unit_pos (unitExponent num den)
  have hnext : (2 : ℚ) ^ (unitExponent num den + 1 - 2) = 2 * 2 ^ (unitExponent num den - 2) := by
    rw [show unitExponent num den + 1 - 2 = 1 + (unitExponent num den - 2) by ring,
      zpow_one_add₀ two_ne_zero]
  rw [RoundsTo, if_pos (by decide : twoTo 52 % 2 = 0), lowEnd, highEnd, quartersBelow_power (by omega), hnext,
    cast_twoTo]
  constructor
  · refine le_trans (le_of_eq ?_) hlow
    push_cast
    ring
  · refine hhigh.trans ?_
    nlinarith

/-- The ratio is not below the interval of its mantissa: only full mantissas reach down by a quarter. -/
theorem lowEnd_near (hnum : 0 < num) (hden : 0 < den) :
    lowEnd (unitMantissa num den) (unitExponent num den) ≤ num / den ∧
      (unitMantissa num den % 2 = 1 →
        lowEnd (unitMantissa num den) (unitExponent num den) < num / den) := by
  obtain ⟨hlow, -, hodd⟩ := unitMantissa_near num hden
  rcases quartersBelow_cases (unitMantissa num den) (unitExponent num den) with
    hhalf | ⟨hpower, hmore, -⟩
  · rw [lowEnd, hhalf]
    exact ⟨hlow, fun h => (hodd h).1⟩
  · have hfull := (le_inUnitsOf_iff hden).1 ((unitExponent_full hnum hden).resolve_right hmore.ne')
    rw [← hpower] at hfull
    have hself := roundsTo_self (unitMantissa num den) (unitExponent num den)
    refine ⟨hself.bounds.1.trans hfull, fun h => ?_⟩
    rw [hpower] at h
    exact absurd h (by decide)

theorem roundsTo_rounded (hnum : 0 < num) (hden : 0 < den) :
    RoundsTo (num / den) (rounded num den).1 (rounded num den).2 := by
  unfold rounded
  split
  · next hcarry => exact roundsTo_carried hden (beq_iff_eq.1 hcarry)
  · obtain ⟨hlow, hlow'⟩ := lowEnd_near hnum hden
    obtain ⟨-, hhigh, hodd⟩ := unitMantissa_near num hden
    unfold RoundsTo
    split
    · exact ⟨hlow, hhigh⟩
    · next h => exact ⟨hlow' (by omega), (hodd (by omega)).2⟩

/-- **Rounding answers the number whose interval a ratio lies in.** -/
theorem ofRatio_eq_finite_iff (hnum : 0 < num) (hden : 0 < den) :
    ofRatio s num den = finite t m e ↔ s = t ∧ Held m e ∧ RoundsTo (num / den) m e := by
  rw [ofRatio_eq hnum.ne']
  have hcanonical := canonical_rounded hnum hden
  have hrounds := roundsTo_rounded hnum hden
  constructor
  · intro h
    split at h
    · cases h
    · next hsmall =>
      injection h with hs hm he
      subst hm he
      exact ⟨hs, ⟨hcanonical, not_lt.1 hsmall⟩, hrounds⟩
  · rintro ⟨rfl, hheld, h⟩
    obtain ⟨hm, he⟩ := hrounds.unique h hcanonical hheld.toCanonical
    rw [hm, he, if_neg (not_lt.2 hheld.greatest)]

theorem highEnd_lt (h : Held m e) : highEnd m e < 2 ^ (1024 : Int) := by
  have hbelow : m < 2 ^ 53 := h.below
  have hgreatest : e ≤ 971 := h.greatest
  have hmantissa : (4 * m + 2 : ℚ) < 2 ^ (55 : Int) := by exact_mod_cast (by omega : 4 * m + 2 < 2 ^ 55)
  calc highEnd m e < 2 ^ (55 : Int) * 2 ^ (e - 2) := mul_lt_mul_of_pos_right hmantissa (unit_pos e)
    _ = 2 ^ (55 + (e - 2)) := (zpow_add₀ two_ne_zero _ _).symm
    _ ≤ 2 ^ (1024 : Int) := zpow_le_zpow_right₀ one_le_two (by omega)

theorem ofRatio_eq_infinite (hnum : 0 < num) (hden : 0 < den) (h : (2 : ℚ) ^ (1024 : Int) ≤ num / den) :
    ofRatio s num den = infinite s := by
  rw [ofRatio_eq hnum.ne']
  refine if_pos ?_
  by_contra hsmall
  have hheld : Held (rounded num den).1 (rounded num den).2 :=
    ⟨canonical_rounded hnum hden, not_lt.1 hsmall⟩
  exact absurd (h.trans (roundsTo_rounded hnum hden).bounds.2) (not_le.2 (highEnd_lt hheld))

theorem held_zero : Held 0 leastExponent := ⟨⟨twoTo_pos 53, le_rfl, .inr rfl⟩, by decide⟩

theorem ofRatio_eq_zero (hnum : 0 < num) (hden : 0 < den) (h : (num / den : ℚ) ≤ 2 ^ (-1075 : Int)) :
    ofRatio s num den = zero s := by
  refine (ofRatio_eq_finite_iff hnum hden).2 ⟨rfl, held_zero, ?_⟩
  rw [RoundsTo, if_pos rfl]
  constructor
  · have hratio : (0 : ℚ) ≤ num / den := by positivity
    refine le_trans ?_ hratio
    rw [lowEnd]
    exact mul_nonpos_of_nonpos_of_nonneg (by simp) (unit_pos _).le
  · refine h.trans (le_of_eq ?_)
    rw [highEnd, Nat.cast_zero, mul_zero, zero_add, ← zpow_one_add₀ two_ne_zero]
    rfl

end Ratios

/-! ### Decimals -/

section Decimals

variable {s t : Bool} {digits m : Nat} {power e : Int}

/-- A power of two is no larger than a power of ten, as 2^93 is below 10^28 and 10^3 below 2^10. -/
theorem two_zpow_le_ten_zpow {a b : Int} (hlarge : 28 * a ≤ 93 * b) (hsmall : 3 * a ≤ 10 * b) :
    (2 : ℚ) ^ a ≤ 10 ^ b := by
  rcases le_total 0 a with ha | ha
  · refine le_of_pow_le_pow_left₀ (n := 93) (by decide) (by positivity) ?_
    calc ((2 : ℚ) ^ a) ^ 93 = (2 ^ 93) ^ a := by
          rw [← zpow_natCast, ← zpow_natCast, ← zpow_mul, ← zpow_mul, mul_comm]
      _ ≤ (10 ^ 28) ^ a := zpow_le_zpow_left₀ ha (by positivity) (by norm_num)
      _ = 10 ^ (28 * a) := by rw [← zpow_natCast, ← zpow_mul]; rfl
      _ ≤ 10 ^ (93 * b) := zpow_le_zpow_right₀ (by norm_num) hlarge
      _ = (10 ^ b) ^ 93 := by rw [← zpow_natCast, ← zpow_mul, mul_comm]; rfl
  · refine le_of_pow_le_pow_left₀ (n := 10) (by decide) (by positivity) ?_
    calc ((2 : ℚ) ^ a) ^ 10 = ((2 ^ 10)⁻¹) ^ (-a) := by
          rw [inv_zpow', neg_neg, ← zpow_natCast, ← zpow_natCast, ← zpow_mul, ← zpow_mul, mul_comm]
      _ ≤ ((10 ^ 3)⁻¹) ^ (-a) := zpow_le_zpow_left₀ (by omega) (by positivity) (by norm_num)
      _ = 10 ^ (3 * a) := by rw [inv_zpow', neg_neg, ← zpow_natCast, ← zpow_mul]; rfl
      _ ≤ 10 ^ (10 * b) := zpow_le_zpow_right₀ (by norm_num) hsmall
      _ = (10 ^ b) ^ 10 := by rw [← zpow_natCast, ← zpow_mul, mul_comm]; rfl

theorem ten_zpow_le_two_zpow {a b : Int} (hlarge : 93 * b ≤ 28 * a) (hsmall : 10 * b ≤ 3 * a) :
    (10 : ℚ) ^ b ≤ 2 ^ a := by
  have hinverse := two_zpow_le_ten_zpow (a := -a) (b := -b) (by omega) (by omega)
  rwa [zpow_neg, zpow_neg, inv_le_inv₀ (by positivity) (by positivity)] at hinverse

theorem decimal_ratio (digits : Nat) (power : Int) :
    ((digits * tenTo power.toNat : Nat) : ℚ) / (tenTo (-power).toNat : Nat) = digits * 10 ^ power := by
  rw [zpow_eq_ratio (by norm_num), Nat.cast_mul, cast_tenTo, cast_tenTo, mul_div_assoc]

/-- The number of digits says where a number lies. -/
theorem length_toDigits_bounds (h : 0 < digits) :
    (10 : ℚ) ^ ((Nat.toDigits 10 digits).length - 1 : Int) ≤ digits ∧
      (digits : ℚ) < 10 ^ ((Nat.toDigits 10 digits).length : Int) := by
  have hlength : 0 < (Nat.toDigits 10 digits).length := Nat.length_toDigits_pos
  obtain ⟨before, hbefore⟩ := Nat.exists_eq_add_of_lt hlength
  rw [zero_add] at hbefore
  constructor
  · rw [hbefore]
    push_cast
    rw [add_sub_cancel_right, zpow_natCast]
    rcases Nat.eq_zero_or_pos before with rfl | hpos
    · exact_mod_cast h
    · have hlong : ¬(Nat.toDigits 10 digits).length ≤ before := by omega
      rw [Nat.length_toDigits_le_iff (by decide) hpos, not_lt] at hlong
      exact_mod_cast hlong
  · rw [zpow_natCast]
    exact_mod_cast (Nat.length_toDigits_le_iff (by decide) hlength).1 le_rfl

/-- The decimals that are told by their length alone would round to an infinity or to zero. -/
theorem ofDecimal_eq_ofRatio (h : 0 < digits) :
    ofDecimal s digits power = ofRatio s (digits * tenTo power.toNat) (tenTo (-power).toNat) := by
  obtain ⟨hlow, hhigh⟩ := length_toDigits_bounds h
  have hnum : 0 < digits * tenTo power.toNat := Nat.mul_pos h (tenTo_pos _)
  have hden := tenTo_pos (-power).toNat
  have hten : (10 : ℚ) ≠ 0 := by norm_num
  rw [ofDecimal, if_neg (by simpa using h.ne')]
  dsimp only
  split
  · next hlarge =>
    refine (ofRatio_eq_infinite hnum hden ?_).symm
    rw [decimal_ratio]
    calc (2 : ℚ) ^ (1024 : Int) ≤ 10 ^ (400 : Int) := two_zpow_le_ten_zpow (by norm_num) (by norm_num)
      _ ≤ 10 ^ ((Nat.toDigits 10 digits).length - 1 + power) :=
          zpow_le_zpow_right₀ (by norm_num) (by omega)
      _ = 10 ^ ((Nat.toDigits 10 digits).length - 1 : Int) * 10 ^ power := zpow_add₀ hten _ _
      _ ≤ digits * 10 ^ power := mul_le_mul_of_nonneg_right hlow (by positivity)
  · split
    · next hsmall =>
      refine (ofRatio_eq_zero hnum hden ?_).symm
      rw [decimal_ratio]
      calc digits * (10 : ℚ) ^ power
          ≤ 10 ^ ((Nat.toDigits 10 digits).length : Int) * 10 ^ power :=
            mul_le_mul_of_nonneg_right hhigh.le (by positivity)
        _ = 10 ^ ((Nat.toDigits 10 digits).length + power) := (zpow_add₀ hten _ _).symm
        _ ≤ 10 ^ (-400 : Int) := zpow_le_zpow_right₀ (by norm_num) (by omega)
        _ ≤ 2 ^ (-1075 : Int) := ten_zpow_le_two_zpow (by norm_num) (by norm_num)
    · split
      · next hpower => rw [show (-power).toNat = 0 by omega]; rfl
      · next hpower =>
        rw [show power.toNat = 0 by omega]
        exact congrArg (ofRatio s · _) (Nat.mul_one digits).symm

/-- **Decimals are read as the number whose interval they lie in.** -/
theorem ofDecimal_eq_finite_iff (h : 0 < digits) :
    ofDecimal s digits power = finite t m e ↔ s = t ∧ Held m e ∧ RoundsTo (digits * 10 ^ power) m e := by
  rw [ofDecimal_eq_ofRatio h, ofRatio_eq_finite_iff (Nat.mul_pos h (tenTo_pos _)) (tenTo_pos _), decimal_ratio]

end Decimals

end Binary64

end SettingsHarvest
