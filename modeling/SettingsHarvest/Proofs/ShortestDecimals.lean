import SettingsHarvest.Number.Shortest
import SettingsHarvest.Proofs.NearestNumbers

/-! The shortest decimal of a number, and how it is found.

The grids of one, two, … significant digits are searched in turn, and what is found on one lies in the
interval of the number (`gridDigits?_eq_some`). A grid of seventeen digits is finer than any interval is
wide, so there is always something to be found: the digits of a number are read as that number again
(`shortest_roundsTo`). A single digit is found wherever one rounds to the number at all
(`shortest_lt_ten_iff`). -/
namespace SettingsHarvest.Binary64

/-! ### The leading digit -/

section Leading

variable {num den : Nat} {k : Int}

theorem tenPowerLe_iff (hden : 0 < den) : tenPowerLe k num den = true ↔ (10 : ℚ) ^ k ≤ num / den := by
  have hden' : (0 : ℚ) < den := by exact_mod_cast hden
  rw [tenPowerLe]
  split
  · next hk =>
    rw [decide_eq_true_eq, le_div_iff₀ hden', zpow_eq_ratio (by norm_num), show (-k).toNat = 0 by omega,
      pow_zero, div_one, ← cast_tenTo]
    norm_cast
  · next hk =>
    rw [decide_eq_true_eq, zpow_eq_ratio (by norm_num), show k.toNat = 0 by omega, pow_zero,
      div_le_div_iff₀ (by positivity) hden', one_mul, ← cast_tenTo]
    norm_cast

/-- The exponent of the leading digit, for ratios whose logarithm the first guess is good enough for. -/
theorem leadingExponent_bounds (hnum : 0 < num) (hden : 0 < den)
    (hlow : -1500 ≤ (Nat.log2 num : Int) - Nat.log2 den) (hhigh : (Nat.log2 num : Int) - Nat.log2 den ≤ 1500) :
    (10 : ℚ) ^ leadingExponent num den ≤ num / den ∧
      (num / den : ℚ) < 10 ^ (leadingExponent num den + 1) := by
  obtain ⟨hbelow, habove⟩ := log2_ratio hnum hden
  have hstep (j : Int) : tenPowerLe j num den = false → (num / den : ℚ) < 10 ^ j := by
    intro hfalse
    rw [← not_le, ← tenPowerLe_iff hden, hfalse]
    exact Bool.false_ne_true
  unfold leadingExponent
  dsimp only
  generalize hL : (Nat.log2 num : Int) - Nat.log2 den = L at *
  generalize hg : L * 30103 / 100000 = g
  have hguess : 100000 * g ≤ L * 30103 ∧ L * 30103 < 100000 * g + 100000 := by omega
  have hleast : (10 : ℚ) ^ (g - 2) ≤ num / den :=
    (ten_zpow_le_two_zpow (by omega) (by omega)).trans hbelow.le
  have hmost : (num / den : ℚ) < 10 ^ (g + 3) :=
    habove.trans_le (two_zpow_le_ten_zpow (by omega) (by omega))
  split
  · next h2 => exact ⟨(tenPowerLe_iff hden).1 h2, hmost.trans_eq (by ring_nf)⟩
  · next h2 =>
    split
    · next h1 => exact ⟨(tenPowerLe_iff hden).1 h1, (hstep _ (Bool.eq_false_iff.2 h2)).trans_eq (by ring_nf)⟩
    · next h1 =>
      split
      · next h0 => exact ⟨(tenPowerLe_iff hden).1 h0, hstep _ (Bool.eq_false_iff.2 h1)⟩
      · next h0 =>
        split
        · next hless =>
          exact ⟨(tenPowerLe_iff hden).1 hless, (hstep _ (Bool.eq_false_iff.2 h0)).trans_eq (by ring_nf)⟩
        · next hless => exact ⟨hleast, (hstep _ (Bool.eq_false_iff.2 hless)).trans_eq (by ring_nf)⟩

end Leading

/-! ### One grid -/

/-- A length lies between two others, which count if the interval is closed. -/
def Inside (low high v : Nat) (closed : Bool) : Prop :=
  if closed then low ≤ v ∧ v ≤ high else low < v ∧ v < high

instance (low high v : Nat) (closed : Bool) : Decidable (Inside low high v closed) :=
  inferInstanceAs (Decidable (if closed then _ else _))

section Grid

variable {low mid high step a : Nat} {closed : Bool}

theorem decide_inside (low high v : Nat) (closed : Bool) :
    (if closed then decide (low ≤ v) && decide (v ≤ high) else decide (low < v) && decide (v < high)) =
      decide (Inside low high v closed) := by
  cases closed <;> simp [Inside]

/-- A point that is found lies inside, and it is one of the two around the middle. -/
theorem gridPoint?_eq_some (h : gridPoint? low mid high step closed = some a) :
    Inside low high (a * step) closed ∧ (a = mid / step ∨ a = mid / step + 1) := by
  simp only [gridPoint?, decide_inside, Bool.and_eq_true, decide_eq_true_eq] at h
  split at h
  · next hboth =>
    split at h
    · cases h
      exact ⟨hboth.1, .inl rfl⟩
    · cases h
      exact ⟨hboth.2, .inr rfl⟩
  · split at h
    · next hbelow =>
      cases h
      exact ⟨hbelow, .inl rfl⟩
    · split at h
      · next habove =>
        cases h
        exact ⟨habove, .inr rfl⟩
      · cases h

theorem gridPoint?_eq_none (h : gridPoint? low mid high step closed = none) :
    ¬Inside low high (mid / step * step) closed ∧ ¬Inside low high ((mid / step + 1) * step) closed := by
  simp only [gridPoint?, decide_inside, Bool.and_eq_true, decide_eq_true_eq] at h
  split at h
  · split at h <;> cases h
  · split at h
    · cases h
    · next hbelow =>
      split at h
      · cases h
      · next habove => exact ⟨hbelow, habove⟩

end Grid

/-! ### Grids of a number -/

/-- A number as a ratio. -/
def numberRatio (m : Nat) (e : Int) : Nat × Nat :=
  if e ≥ 0 then (m * twoTo e.toNat, 1) else (m, twoTo (-e).toNat)

/-- The exponent of the leading decimal digit of a number. -/
def decimalExponent (m : Nat) (e : Int) : Int := leadingExponent (numberRatio m e).1 (numberRatio m e).2

/-- A power of two and one of ten in one unit, the finer one of theirs. -/
def binaryUnits (e p : Int) : Nat := twoTo (e - 2).toNat * tenTo (-p).toNat

def decimalUnits (e p : Int) : Nat := tenTo p.toNat * twoTo (-(e - 2)).toNat

/-- The point that is found on the grid with `n` digits. -/
def gridDigits? (m : Nat) (e : Int) (n : Nat) : Option Nat :=
  let p := decimalExponent m e + 1 - n
  gridPoint? ((4 * m - quartersBelow m e) * binaryUnits e p) (4 * m * binaryUnits e p)
    ((4 * m + 2) * binaryUnits e p) (decimalUnits e p) (m % 2 == 0)

/-- What is found on the grid with `n` digits, without zeros at the end. -/
def onGrid? (m : Nat) (e : Int) (n : Nat) : Option (Nat × Int) :=
  (gridDigits? m e n).map fun a => trimZeros 20 a (decimalExponent m e + 1 - n)

theorem shortest_eq (m : Nat) (e : Int) :
    shortest m e = ((List.range 17).findSome? fun n => onGrid? m e (n + 1)).getD (m, e) := rfl

section Grids

variable {m n a : Nat} {e p : Int}

/-- A unit that both a power of two and a power of ten are multiples of. -/
def commonUnit (e p : Int) : ℚ := twoTo (-(e - 2)).toNat * tenTo (-p).toNat

theorem commonUnit_pos (e p : Int) : 0 < commonUnit e p := by
  rw [commonUnit, cast_twoTo, cast_tenTo]
  positivity

theorem cast_binaryUnits (e p : Int) : (binaryUnits e p : ℚ) = 2 ^ (e - 2) * commonUnit e p := by
  rw [binaryUnits, commonUnit, zpow_eq_ratio two_ne_zero]
  push_cast [cast_twoTo, cast_tenTo]
  field_simp

theorem cast_decimalUnits (e p : Int) : (decimalUnits e p : ℚ) = 10 ^ p * commonUnit e p := by
  rw [decimalUnits, commonUnit, zpow_eq_ratio (by norm_num)]
  push_cast [cast_twoTo, cast_tenTo]
  field_simp

theorem cast_lowEnd (hm : 0 < m) : (((4 * m - quartersBelow m e) * binaryUnits e p : Nat) : ℚ) =
    lowEnd m e * commonUnit e p := by
  have hq : quartersBelow m e ≤ 2 := quartersBelow_le
  rw [Nat.cast_mul, Nat.cast_sub (by omega), cast_binaryUnits, lowEnd]
  push_cast
  ring

theorem cast_highEnd : (((4 * m + 2) * binaryUnits e p : Nat) : ℚ) = highEnd m e * commonUnit e p := by
  rw [Nat.cast_mul, cast_binaryUnits, highEnd]
  push_cast
  ring

theorem cast_middle : ((4 * m * binaryUnits e p : Nat) : ℚ) = m * 2 ^ e * commonUnit e p := by
  rw [Nat.cast_mul, cast_binaryUnits, four_units e]
  push_cast
  ring

theorem cast_point : ((a * decimalUnits e p : Nat) : ℚ) = a * 10 ^ p * commonUnit e p := by
  rw [Nat.cast_mul, cast_decimalUnits]
  ring

/-- A point of a grid is inside just if it rounds to the number. -/
theorem inside_iff (hm : 0 < m) :
    Inside ((4 * m - quartersBelow m e) * binaryUnits e p) ((4 * m + 2) * binaryUnits e p)
      (a * decimalUnits e p) (m % 2 == 0) ↔ RoundsTo (a * 10 ^ p) m e := by
  have hunit := commonUnit_pos e p
  rw [Inside, RoundsTo, ← Nat.cast_le (α := ℚ), ← Nat.cast_le (α := ℚ), ← Nat.cast_lt (α := ℚ),
    ← Nat.cast_lt (α := ℚ), cast_lowEnd hm, cast_highEnd, cast_point,
    mul_le_mul_iff_of_pos_right hunit, mul_le_mul_iff_of_pos_right hunit,
    mul_lt_mul_iff_of_pos_right hunit, mul_lt_mul_iff_of_pos_right hunit]
  simp only [beq_iff_eq]

theorem gridDigits?_eq_some (hm : 0 < m) (h : gridDigits? m e n = some a) :
    RoundsTo (a * 10 ^ (decimalExponent m e + 1 - n)) m e :=
  (inside_iff hm).1 (gridPoint?_eq_some h).1

theorem decimalUnits_pos (e p : Int) : 0 < decimalUnits e p := Nat.mul_pos (tenTo_pos _) (twoTo_pos _)

/-- The points of a grid next to a number: one no larger than it, and one larger. -/
theorem grid_floor (m : Nat) (e p : Int) :
    ((4 * m * binaryUnits e p / decimalUnits e p : Nat) : ℚ) * 10 ^ p ≤ m * 2 ^ e ∧
      (m * 2 ^ e : ℚ) < ((4 * m * binaryUnits e p / decimalUnits e p + 1 : Nat) : ℚ) * 10 ^ p := by
  have hunit := commonUnit_pos e p
  have hpos := decimalUnits_pos e p
  constructor
  · refine le_of_mul_le_mul_right ?_ hunit
    rw [← cast_point, ← cast_middle]
    exact_mod_cast Nat.div_mul_le_self _ _
  · refine lt_of_mul_lt_mul_right ?_ hunit.le
    rw [← cast_point, ← cast_middle]
    exact_mod_cast Nat.lt_div_mul_add hpos |>.trans_eq (by ring)

/-- Nothing is found on a grid just if neither of its points next to the number rounds to it. -/
theorem gridDigits?_eq_none (hm : 0 < m) (h : gridDigits? m e n = none) :
    ∃ b : Nat, ¬RoundsTo (b * 10 ^ (decimalExponent m e + 1 - n)) m e ∧
      ¬RoundsTo ((b + 1 : Nat) * 10 ^ (decimalExponent m e + 1 - n)) m e ∧
      b * (10 : ℚ) ^ (decimalExponent m e + 1 - n) ≤ m * 2 ^ e ∧
      (m * 2 ^ e : ℚ) < (b + 1 : Nat) * 10 ^ (decimalExponent m e + 1 - n) := by
  obtain ⟨hbelow, habove⟩ := gridPoint?_eq_none h
  rw [inside_iff hm] at hbelow habove
  exact ⟨_, hbelow, habove, grid_floor m e _⟩

/-! ### The leading digit of a number -/

theorem numberRatio_value (m : Nat) (e : Int) :
    ((numberRatio m e).1 : ℚ) / (numberRatio m e).2 = m * 2 ^ e := by
  unfold numberRatio
  split
  · next he =>
    rw [zpow_eq_ratio two_ne_zero, show (-e).toNat = 0 by omega]
    push_cast [cast_twoTo]
    simp
  · next he =>
    rw [zpow_eq_ratio two_ne_zero, show e.toNat = 0 by omega]
    push_cast [cast_twoTo]
    ring

theorem numberRatio_pos (hm : 0 < m) (e : Int) : 0 < (numberRatio m e).1 ∧ 0 < (numberRatio m e).2 := by
  unfold numberRatio
  split
  · exact ⟨Nat.mul_pos hm (twoTo_pos _), Nat.one_pos⟩
  · exact ⟨hm, twoTo_pos _⟩

theorem decimalExponent_bounds (h : Held m e) (hm : 0 < m) :
    (10 : ℚ) ^ decimalExponent m e ≤ m * 2 ^ e ∧ (m * 2 ^ e : ℚ) < 10 ^ (decimalExponent m e + 1) := by
  obtain ⟨hnum, hden⟩ := numberRatio_pos hm e
  have hleast : -1074 ≤ e := h.least
  obtain ⟨hbelow, habove⟩ := log2_ratio hnum hden
  rw [numberRatio_value] at hbelow habove
  rw [← numberRatio_value]
  refine leadingExponent_bounds hnum hden ?_ ?_
  · have hlow : (2 : ℚ) ^ (-1074 : Int) ≤ m * 2 ^ e := by
      calc (2 : ℚ) ^ (-1074 : Int) ≤ 2 ^ e := zpow_le_zpow_right₀ one_le_two hleast
        _ ≤ m * 2 ^ e := le_mul_of_one_le_left (by positivity) (by exact_mod_cast hm)
    have := (zpow_lt_zpow_iff_right₀ one_lt_two).1 (hlow.trans_lt habove)
    omega
  · have := (zpow_lt_zpow_iff_right₀ one_lt_two).1
      (hbelow.trans_le ((roundsTo_self m e).bounds.2.trans (highEnd_lt h).le))
    omega

/-! ### Enough digits -/

/-- A grid with seventeen digits has a point in the interval of a number: the interval is wider than its
points are apart. -/
theorem exists_gridDigits_seventeen (h : Held m e) (hm : 0 < m) : ∃ a, gridDigits? m e 17 = some a := by
  rw [← Option.isSome_iff_exists, ← Option.ne_none_iff_isSome]
  intro hnone
  obtain ⟨b, hbelow, habove, hlow, hhigh⟩ := gridDigits?_eq_none hm hnone
  have hself := self_between m e
  have hlowEnd : b * (10 : ℚ) ^ (decimalExponent m e + 1 - (17 : Nat)) ≤ lowEnd m e := by
    by_contra hgt
    exact hbelow (roundsTo_of_strict (not_le.1 hgt) (hlow.trans_lt hself.2))
  have hhighEnd : highEnd m e ≤ (b + 1 : Nat) * (10 : ℚ) ^ (decimalExponent m e + 1 - (17 : Nat)) := by
    by_contra hlt
    exact habove (roundsTo_of_strict (hself.1.trans hhigh) (not_le.1 hlt))
  have hleading : (10 : ℚ) ^ (decimalExponent m e + 1 - (17 : Nat)) * 10 ^ 16 ≤ 4 * m * 2 ^ (e - 2) := by
    calc (10 : ℚ) ^ (decimalExponent m e + 1 - (17 : Nat)) * 10 ^ 16 = 10 ^ decimalExponent m e := by
          rw [← zpow_natCast, ← zpow_add₀ (by norm_num)]
          congr 1
          push_cast
          ring
      _ ≤ m * 2 ^ e := (decimalExponent_bounds h hm).1
      _ = 4 * m * 2 ^ (e - 2) := by rw [four_units e]; ring
  have hwidth : (quartersBelow m e + 2) * 10 ^ 16 ≤ 4 * m := by
    have hcoefficients : ((quartersBelow m e + 2) * 10 ^ 16 : ℚ) ≤ 4 * m := by
      refine le_of_mul_le_mul_right ?_ (unit_pos e)
      rw [lowEnd] at hlowEnd
      rw [highEnd, Nat.cast_add, Nat.cast_one] at hhighEnd
      linarith
    exact_mod_cast hcoefficients
  have hmantissa : m < 2 ^ 53 := h.below
  rcases quartersBelow_cases m e with hq | ⟨hpower, -, hq⟩
  · rw [hq] at hwidth
    omega
  · rw [hq, hpower, show twoTo 52 = 2 ^ 52 from rfl] at hwidth
    omega

/-! ### Zeros at the end -/

theorem trimZeros_value (k d : Nat) (p : Int) :
    ((trimZeros k d p).1 : ℚ) * 10 ^ (trimZeros k d p).2 = d * 10 ^ p := by
  fun_induction trimZeros k d p with
  | case1 => rfl
  | case2 k d p hzero ih =>
    rw [Bool.and_eq_true, beq_iff_eq] at hzero
    have hdigits : (d : ℚ) = (d / 10 : Nat) * 10 := by exact_mod_cast (by omega : d = d / 10 * 10)
    rw [ih, zpow_add_one₀ (by norm_num), hdigits]
    ring
  | case3 => rfl

theorem trimZeros_le (k d : Nat) (p : Int) : (trimZeros k d p).1 ≤ d := by
  fun_induction trimZeros k d p with
  | case1 => exact le_rfl
  | case2 k d p _ ih => exact ih.trans (Nat.div_le_self d 10)
  | case3 => exact le_rfl

theorem trimZeros_ten (k : Nat) (p : Int) : trimZeros (k + 1) 10 p = trimZeros k 1 (p + 1) := rfl

/-! ### The shortest digits -/

/-- **The shortest digits of a number are read as that number.** -/
theorem shortest_roundsTo (h : Held m e) (hm : 0 < m) :
    0 < (shortest m e).1 ∧ RoundsTo ((shortest m e).1 * 10 ^ (shortest m e).2) m e := by
  have hrounds : RoundsTo ((shortest m e).1 * 10 ^ (shortest m e).2) m e := by
    rw [shortest_eq]
    cases hfound : (List.range 17).findSome? fun n => onGrid? m e (n + 1) with
    | none =>
      obtain ⟨a, ha⟩ := exists_gridDigits_seventeen h hm
      have hlast := List.findSome?_eq_none_iff.1 hfound 16 (List.mem_range.2 (by decide))
      rw [onGrid?, ha] at hlast
      cases hlast
    | some digits =>
      obtain ⟨n, -, hn⟩ := List.exists_of_findSome?_eq_some hfound
      obtain ⟨a, ha, rfl⟩ := Option.map_eq_some_iff.1 hn
      rw [Option.getD_some, trimZeros_value]
      exact gridDigits?_eq_some hm ha
  refine ⟨Nat.pos_of_ne_zero fun hzero => ?_, hrounds⟩
  have hlow := hrounds.bounds.1
  rw [hzero, Nat.cast_zero, zero_mul] at hlow
  exact absurd hlow (not_le.2 (lowEnd_pos hm))

theorem digit_le {d : Nat} {k p : Int} (hd : d < 10) (h : k ≤ p) :
    (d : ℚ) * 10 ^ k ≤ (9 : Nat) * 10 ^ p :=
  mul_le_mul (by exact_mod_cast Nat.le_of_lt_succ hd) (zpow_le_zpow_right₀ (by norm_num) h) (by positivity)
    (by positivity)

theorem le_digit {d : Nat} {k p : Int} (hd : 0 < d) (h : p ≤ k) :
    ((1 : Nat) : ℚ) * 10 ^ p ≤ d * 10 ^ k :=
  mul_le_mul (by exact_mod_cast hd) (zpow_le_zpow_right₀ (by norm_num) h) (by positivity) (by positivity)

/-- Grids of single digits have no digit between two neighbours. -/
theorem digit_beside {d b : Nat} {k p : Int} (hd : d < 10) (hb : 0 < b) :
    (d : ℚ) * 10 ^ k ≤ b * 10 ^ p ∨ ((b + 1 : Nat) : ℚ) * 10 ^ p ≤ d * 10 ^ k := by
  have hten : (1 : ℚ) ≤ 10 := by norm_num
  rcases lt_or_ge k p with hlt | hge
  · refine .inl ?_
    calc (d : ℚ) * 10 ^ k ≤ 10 * 10 ^ k :=
          mul_le_mul_of_nonneg_right (by exact_mod_cast hd.le) (by positivity)
      _ = 10 ^ (1 + k) := (zpow_one_add₀ (by norm_num) k).symm
      _ ≤ 10 ^ p := zpow_le_zpow_right₀ hten (by omega)
      _ ≤ b * 10 ^ p := le_mul_of_one_le_left (by positivity) (by exact_mod_cast hb)
  · have hpoint : (d : ℚ) * 10 ^ k = (d * 10 ^ (k - p).toNat : Nat) * 10 ^ p := by
      have hsplit : (10 : ℚ) ^ k = 10 ^ (k - p).toNat * 10 ^ p := by
        rw [← zpow_natCast, ← zpow_add₀ (by norm_num)]
        congr 1
        omega
      rw [hsplit]
      push_cast
      ring
    rw [hpoint]
    rcases Nat.lt_or_ge b (d * 10 ^ (k - p).toNat) with hmore | hless
    · exact .inr (mul_le_mul_of_nonneg_right (by exact_mod_cast hmore) (by positivity))
    · exact .inl (mul_le_mul_of_nonneg_right (by exact_mod_cast hless) (by positivity))

/-- On the grid of single digits there is one, or the next power of ten. -/
theorem gridDigits?_one_le (h : Held m e) (hm : 0 < m) (ha : gridDigits? m e 1 = some a) : a ≤ 10 := by
  have hfloor := (grid_floor m e (decimalExponent m e)).1.trans_lt (decimalExponent_bounds h hm).2
  rw [zpow_add_one₀ (by norm_num), mul_comm (_ ^ _)] at hfloor
  have hdigit : 4 * m * binaryUnits e (decimalExponent m e) / decimalUnits e (decimalExponent m e) < 10 := by
    exact_mod_cast lt_of_mul_lt_mul_right hfloor (by positivity)
  have hnear := (gridPoint?_eq_some ha).2
  rw [Nat.cast_one, add_sub_cancel_right] at hnear
  omega

/-- **A single digit is found wherever one rounds to the number.** -/
theorem shortest_lt_ten_iff (h : Held m e) (hm : 0 < m) :
    (shortest m e).1 < 10 ↔ ∃ d k, 0 < d ∧ d < 10 ∧ RoundsTo ((d : Nat) * 10 ^ (k : Int)) m e := by
  constructor
  · intro hdigit
    obtain ⟨hpos, hrounds⟩ := shortest_roundsTo h hm
    exact ⟨_, _, hpos, hdigit, hrounds⟩
  · rintro ⟨d, k, -, hdigit, hrounds⟩
    obtain ⟨a, ha⟩ : ∃ a, gridDigits? m e 1 = some a := by
      rw [← Option.isSome_iff_exists, ← Option.ne_none_iff_isSome]
      intro hnone
      obtain ⟨b, hbelow, habove, hlow, hhigh⟩ := gridDigits?_eq_none hm hnone
      have hb : 0 < b := by
        have hleading := (decimalExponent_bounds h hm).1.trans_lt hhigh
        rw [Nat.cast_one, add_sub_cancel_right] at hleading
        have hone : (1 : ℚ) < (b + 1 : Nat) := lt_of_mul_lt_mul_right (by rwa [one_mul]) (by positivity)
        have := Nat.one_lt_cast.1 hone
        omega
      rcases digit_beside hdigit hb with hle | hge
      · exact hbelow (hrounds.between (roundsTo_self m e) hle hlow)
      · exact habove ((roundsTo_self m e).between hrounds hhigh.le hge)
    have hten := gridDigits?_one_le h hm ha
    rw [shortest_eq, List.range_succ_eq_map, List.findSome?_cons, onGrid?, zero_add, ha]
    rw [Option.map_some]
    dsimp only [Option.getD_some]
    rcases hten.lt_or_eq with hlt | rfl
    · exact (trimZeros_le _ _ _).trans_lt hlt
    · rw [trimZeros_ten]
      exact (trimZeros_le _ _ _).trans_lt (by decide)

/-- Where single digits on both sides of the gap between nine and ten units round to one number, so do nine
units and ten. -/
theorem nine_eq_ten {d d' : Nat} {k k' p : Int} (h : Held m e) (hd : d < 10) (hk : k ≤ p) (hd' : 0 < d')
    (hk' : p + 1 ≤ k') (hrounds : RoundsTo (d * 10 ^ k) m e) (hrounds' : RoundsTo (d' * 10 ^ k') m e) :
    ofDecimal false 9 p = ofDecimal false 1 (p + 1) := by
  have hbelow := digit_le hd hk
  have habove := le_digit hd' hk'
  have hgap : ((9 : Nat) : ℚ) * 10 ^ p ≤ (1 : Nat) * 10 ^ (p + 1) := by
    rw [zpow_add_one₀ (by norm_num), Nat.cast_one, one_mul, mul_comm]
    exact mul_le_mul_of_nonneg_left (by norm_num) (by positivity)
  have hnine := hrounds.between hrounds' hbelow (hgap.trans habove)
  have hten := hrounds.between hrounds' (hbelow.trans hgap) habove
  exact ((ofDecimal_eq_finite_iff (by decide)).2 ⟨rfl, h, hnine⟩).trans
    ((ofDecimal_eq_finite_iff (by decide)).2 ⟨rfl, h, hten⟩).symm

/-- Digits beyond the exponents that numbers are written positionally at are found beyond these. -/
theorem shortest_exponent_beyond {d : Nat} {k : Int} (h : Held m e) (hm : 0 < m)
    (hdigit : (shortest m e).1 < 10) (hd : 0 < d) (hd' : d < 10) (hk : k < -4 ∨ 16 ≤ k)
    (hrounds : RoundsTo (d * 10 ^ k) m e) : (shortest m e).2 < -4 ∨ 16 ≤ (shortest m e).2 := by
  obtain ⟨hpos, hshortest⟩ := shortest_roundsTo h hm
  by_contra hwithin
  rw [not_or, not_lt, not_le] at hwithin
  -- Floating point tells 9 · 10^-5 from 10^-4, and 9 · 10^15 from 10^16.
  rcases hk with hk | hk
  · have hsame := nine_eq_ten (p := -5) h hd' (by omega) hpos hwithin.1 hrounds hshortest
    exact absurd hsame (by decide)
  · have hsame := nine_eq_ten (p := 15) h hdigit (by omega) hd hk hshortest hrounds
    exact absurd hsame (by decide)

end Grids

end SettingsHarvest.Binary64
