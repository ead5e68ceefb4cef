import SettingsHarvest.Proofs.Nix.Numbers
import SettingsHarvest.Proofs.Nix.Options

/-! Numbers as the defaults of numeric options.

An option of an integer or a floating-point type is written with a literal that denotes its default exactly,
unless one of three things goes wrong: an integer has too many digits for a text, a floating-point type is
given an integer that floating point does not hold, which takes one beyond 2^53 (`toInt?_ofInt`), or a
floating-point number comes down to a single digit with an exponent, which leaves no place for the decimal
point that the language asks for (`default_denoted_exactly_iff`). -/
namespace SettingsHarvest.Nix

/-- An integer of any size, or a finite floating-point number. -/
def IsFiniteNumber : Value → Prop
  | .integer _ => True
  | .decimal (.finite _ m e) => Binary64.Held m e
  | _ => False

/-- A text is the literal of a number that is equal to a value, and it has a decimal point where the type is
one of floating-point numbers. -/
def DenotesExactly (target : TargetType) (text : String) (v : Value) : Prop :=
  (∃ w, numberText? text.toList = some w ∧ w.agrees v = true) ∧ (target = .float → '.' ∈ text.toList)

/-- What a type has an exact literal for. -/
def HasLiteral (target : TargetType) : Value → Prop
  | .integer n =>
    if target = .float then (Binary64.ofInt n).toInt? = some n else (Value.integer n).isWritable = true
  | .decimal x => ¬SingleDigit x
  | _ => False

theorem agrees_integer {v : Value} {n : Int} : v.agrees (.integer n) = true ↔ v.asInteger? = some n := by
  cases v with
  | decimal x =>
    rw [Value.agrees, Value.asInteger?, Value.asInteger?]
    cases x.toInt? <;> simp
    all_goals simp
  | null | truth | integer | text | list | record => simp [Value.agrees, Value.asInteger?]

theorem agrees_self {x : Binary64} (h : x.isFinite = true) :
    (Value.decimal x).agrees (.decimal x) = true := by
  cases x with
  | finite s m e => simp [Value.agrees, Binary64.sameValue]
  | infinite | nan => cases h

theorem held_ofInt {n : Int} {s : Bool} {m : Nat} {e : Int} (h : Binary64.ofInt n = .finite s m e) :
    Binary64.Held m e := by
  rcases eq_or_ne n 0 with rfl | hn
  · cases h
    exact Binary64.held_zero
  · exact ((Binary64.ofRatio_eq_finite_iff (Int.natAbs_pos.2 hn) Nat.one_pos).1 h).2.1

section Shifting

variable {n shift : Nat}

theorem value_shifted : ((n * twoTo shift : Nat) : ℚ) * 2 ^ (-shift : Int) = n := by
  rw [Nat.cast_mul, cast_twoTo, mul_assoc, ← zpow_natCast, ← zpow_add₀ two_ne_zero, add_neg_cancel, zpow_zero,
    mul_one]

/-- An integer whose leading digit is moved to the place where mantissas have theirs. -/
theorem held_shifted (hn : n ≠ 0) (h : Nat.log2 n + shift = 52) :
    Binary64.Held (n * twoTo shift) (-shift) := by
  have hbelow : n * twoTo shift < twoTo 53 := calc
    n * twoTo shift < twoTo (Nat.log2 n + 1) * twoTo shift :=
      Nat.mul_lt_mul_of_pos_right Nat.lt_log2_self (twoTo_pos shift)
    _ = twoTo 53 := by rw [← twoTo_add, show Nat.log2 n + 1 + shift = 53 by omega]
  have hfull : twoTo 52 ≤ n * twoTo shift := calc
    twoTo 52 = twoTo (Nat.log2 n) * twoTo shift := by rw [← twoTo_add, h]
    _ ≤ n * twoTo shift := Nat.mul_le_mul_right _ (Nat.log2_self_le hn)
  refine ⟨⟨hbelow, ?_, .inl hfull⟩, ?_⟩
  · unfold Binary64.leastExponent
    omega
  · unfold Binary64.greatestExponent
    omega

end Shifting

/-- Floating point holds all integers up to 2^53. -/
theorem toInt?_ofInt {n : Int} (h : n.natAbs < Value.safeIntegerBound) :
    (Binary64.ofInt n).toInt? = some n := by
  rcases eq_or_ne n 0 with rfl | hn
  · exact toInt?_eq_some_iff.2 ⟨0, by simp, rfl⟩
  · have hpos := Int.natAbs_pos.2 hn
    have hlog : Nat.log2 n.natAbs < 53 := (Nat.log2_lt hpos.ne').2 h
    obtain ⟨shift, hshift⟩ := Nat.exists_eq_add_of_le (Nat.le_of_lt_succ hlog)
    have hofInt : Binary64.ofInt n = .finite (n < 0) (n.natAbs * twoTo shift) (-shift) := by
      refine (Binary64.ofRatio_eq_finite_iff hpos Nat.one_pos).2
        ⟨rfl, held_shifted hpos.ne' hshift.symm, ?_⟩
      rw [Nat.cast_one, div_one, ← value_shifted]
      exact Binary64.roundsTo_self _ _
    rw [hofInt]
    refine toInt?_eq_some_iff.2 ⟨n.natAbs, value_shifted.symm, ?_⟩
    unfold Binary64.signed
    split
    · next hneg =>
      rw [decide_eq_true_eq] at hneg
      omega
    · next hneg =>
      rw [decide_eq_true_eq] at hneg
      omega

section Literals

variable {n : Int} {s : Bool} {m : Nat} {e : Int}

/-- What a default is written as, and that the text denotes it. -/
def WrittenExactly (target : TargetType) (v : Value) : Prop :=
  ∃ d, optionDefault target v = .ok d ∧ DenotesExactly target (d.write standardUnit (optionLevel + 1)) v

theorem writtenExactly_integer : WrittenExactly .int (.integer n) ↔ HasLiteral .int (.integer n) := by
  rw [WrittenExactly, HasLiteral, if_neg (by decide)]
  show (∃ d, writableTerm (.integer n) = .ok d ∧ _) ↔ _
  simp only [writableTerm_eq_ok_iff]
  constructor
  · rintro ⟨_, ⟨hwritable, rfl⟩, -⟩
    exact hwritable
  · intro hwritable
    refine ⟨_, ⟨hwritable, rfl⟩, ⟨_, numberText?_intText n, ?_⟩, by simp⟩
    exact agrees_integer.2 rfl

theorem withOnePlace_eq_ok_iff {text : String} :
    withOnePlace n = .ok text ↔ ∃ k, (Binary64.ofInt n).toInt? = some k ∧ Value.intText k ++ ".0" = text := by
  unfold withOnePlace
  split
  · next k hk => simp [hk]
  · next hk => simp [hk]

/-- An integer is denoted by its text with a place behind the point just if floating point holds it. -/
theorem denotesExactly_onePlace {k : Int} (hk : (Binary64.ofInt n).toInt? = some k) :
    DenotesExactly .float (Value.intText k ++ ".0") (.integer n) ↔ k = n := by
  obtain ⟨s, m, e, hfinite⟩ : ∃ s m e, Binary64.ofInt n = .finite s m e := by
    cases hx : Binary64.ofInt n with
    | finite s m e => exact ⟨s, m, e, rfl⟩
    | infinite | nan => simp [hx, Binary64.toInt?] at hk
  obtain ⟨⟨y, hread, hy⟩, hpoint⟩ := numberText?_onePlace (held_ofInt hfinite) (hfinite ▸ hk)
  constructor
  · rintro ⟨⟨w, hw, hagrees⟩, -⟩
    cases hread.symm.trans hw
    exact Option.some.inj (hy.symm.trans (agrees_integer.1 hagrees))
  · rintro rfl
    exact ⟨⟨_, hread, agrees_integer.2 hy⟩, fun _ => hpoint⟩

theorem optionDefault_onePlace {d : Term} : optionDefault .float (.integer n) = .ok d ↔
    ∃ k, (Binary64.ofInt n).toInt? = some k ∧ Term.raw (Value.intText k ++ ".0") = d := by
  show (withOnePlace n >>= fun text => pure (Term.raw text)) = .ok d ↔ _
  rw [bind_eq_ok]
  simp only [withOnePlace_eq_ok_iff, pure_eq_ok]
  constructor
  · rintro ⟨_, ⟨k, hk, rfl⟩, rfl⟩
    exact ⟨k, hk, rfl⟩
  · rintro ⟨k, hk, rfl⟩
    exact ⟨_, ⟨k, hk, rfl⟩, rfl⟩

theorem optionDefault_decimal {target : TargetType} {x : Binary64} :
    optionDefault target (.decimal x) = .ok (.decimal x) := by
  cases target <;> rfl

theorem writtenExactly_onePlace : WrittenExactly .float (.integer n) ↔ HasLiteral .float (.integer n) := by
  rw [WrittenExactly, HasLiteral, if_pos rfl]
  constructor
  · rintro ⟨d, hd, hdenotes⟩
    obtain ⟨k, hk, rfl⟩ := optionDefault_onePlace.1 hd
    obtain rfl := (denotesExactly_onePlace hk).1 hdenotes
    exact hk
  · intro hn
    exact ⟨_, optionDefault_onePlace.2 ⟨n, hn, rfl⟩, (denotesExactly_onePlace hn).2 rfl⟩

theorem writtenExactly_decimal {target : TargetType} (h : Binary64.Held m e) :
    WrittenExactly target (.decimal (.finite s m e)) ↔ HasLiteral target (.decimal (.finite s m e)) := by
  obtain ⟨hpoint, hsingle⟩ := numberText?_decimalText h s
  rw [WrittenExactly, HasLiteral]
  constructor
  · rintro ⟨d, hd, ⟨w, hw, -⟩, -⟩ hdigit
    cases optionDefault_decimal.symm.trans hd
    cases (hsingle hdigit).symm.trans hw
  · intro hdigit
    obtain ⟨hread, hmem⟩ := hpoint hdigit
    exact ⟨_, optionDefault_decimal, ⟨_, hread, agrees_self rfl⟩, fun _ => hmem⟩

/-- A number is written without a semicolon. -/
theorem semicolon_not_mem {target : TargetType} {v : Value} (htarget : target = .int ∨ target = .float)
    (hv : IsFiniteNumber v) {d : Term} (hd : optionDefault target v = .ok d) :
    ';' ∉ (d.write standardUnit (optionLevel + 1)).toList := by
  have hnumeric {cs : List Char} (h : ∀ c ∈ cs, isNumeric c = true) : ';' ∉ cs :=
    fun hmem => absurd (h _ hmem) (by decide)
  cases v with
  | integer n =>
    rcases htarget with rfl | rfl
    · obtain ⟨-, rfl⟩ := writableTerm_eq_ok_iff.1 hd
      exact hnumeric (isNumeric_intText n)
    · obtain ⟨k, -, rfl⟩ := optionDefault_onePlace.1 hd
      refine hnumeric ?_
      rw [Term.write, String.toList_append]
      exact List.forall_mem_append.2 ⟨isNumeric_intText k, by simp [isNumeric]⟩
  | decimal x =>
    cases x with
    | finite s m e =>
      cases optionDefault_decimal.symm.trans hd
      exact hnumeric (isNumeric_decimalText s m e)
    | infinite | nan => cases hv
  | null | truth | text | list | record => cases hv

theorem writtenExactly_iff {target : TargetType} {v : Value} (htarget : target = .int ∨ target = .float)
    (hv : IsFiniteNumber v) : WrittenExactly target v ↔ HasLiteral target v := by
  cases v with
  | integer n =>
    rcases htarget with rfl | rfl
    · exact writtenExactly_integer
    · exact writtenExactly_onePlace
  | decimal x =>
    cases x with
    | finite s m e => exact writtenExactly_decimal hv
    | infinite | nan => cases hv
  | null | truth | text | list | record => cases hv

end Literals

/-- What is exactly denoted in the text of a setting. -/
theorem exists_denotesExactly_iff {s : Setting} {v : Value} (category : Option String)
    (hname : s.name ≠ enableName) (htarget : s.target = .int ∨ s.target = .float)
    (hdefault : s.default = some v) (hv : IsFiniteNumber v) :
    (∃ t text, settingTerm s category = .ok t ∧ DefaultWritten t text ∧ DenotesExactly s.target text v) ↔
      WrittenExactly s.target v := by
  have htype : ∃ type, optionType s = .ok type := by
    unfold optionType
    rcases htarget with h | h <;> exact ⟨_, by rw [h]⟩
  have hwritten (text : String) : (∃ t, settingTerm s category = .ok t ∧ DefaultWritten t text) ↔ _ :=
    exists_defaultWritten_iff hname hdefault fun d hd => semicolon_not_mem htarget hv hd
  constructor
  · rintro ⟨t, text, ht, htext, hdenotes⟩
    obtain ⟨-, d, hd, rfl⟩ := (hwritten text).1 ⟨t, ht, htext⟩
    exact ⟨d, hd, hdenotes⟩
  · rintro ⟨d, hd, hdenotes⟩
    obtain ⟨t, ht, htext⟩ := (hwritten _).2 ⟨htype, d, hd, rfl⟩
    exact ⟨t, _, ht, htext, hdenotes⟩

/-- **A numeric default is denoted exactly just if its type has a literal for it.** -/
theorem default_denoted_exactly_iff {s : Setting} {v : Value} (category : Option String)
    (hname : s.name ≠ enableName) (htarget : s.target = .int ∨ s.target = .float)
    (hdefault : s.default = some v) (hv : IsFiniteNumber v) :
    (∃ t text, settingTerm s category = .ok t ∧ DefaultWritten t text ∧ DenotesExactly s.target text v) ↔
      HasLiteral s.target v :=
  (exists_denotesExactly_iff category hname htarget hdefault hv).trans (writtenExactly_iff htarget hv)

/-- A setting of a numeric type with a default and nothing else. -/
def numericSetting (name : String) (target : TargetType) (default : Value) : Setting :=
  ⟨name, target, none, some default, none, none, none, false, false⟩

/-- A tenth is denoted by its shortest digits. -/
theorem tenth_denoted :
    ∃ t text, settingTerm (numericSetting "volume" .float (.decimal (.ofDecimal false 1 (-1)))) none = .ok t ∧
      DefaultWritten t text ∧ DenotesExactly .float text (.decimal (.ofDecimal false 1 (-1))) := by
  have htenth : Binary64.ofDecimal false 1 (-1) = .finite false 7205759403792794 (-56) := by decide
  have hheld : Binary64.Held 7205759403792794 (-56) := ⟨⟨by decide, by decide, by decide⟩, by decide⟩
  have hdigits : ¬Pointless 7205759403792794 (-56) := by
    unfold Pointless
    decide
  refine (default_denoted_exactly_iff none (by decide) (.inr rfl) rfl ?_).2 ?_
  · rw [htenth]
    exact hheld
  · rw [htenth]
    exact fun hdigit => hdigits ((singleDigit_iff hheld false).1 hdigit).2

/-- A single digit with an exponent is no literal: it would have to be written with a point. -/
theorem single_digit_undenoted :
    ¬∃ t text, settingTerm (numericSetting "volume" .float (.decimal (.ofDecimal false 1 (-5)))) none = .ok t ∧
      DefaultWritten t text ∧ DenotesExactly .float text (.decimal (.ofDecimal false 1 (-5))) := by
  have hfinite : Binary64.ofDecimal false 1 (-5) = .finite false 5902958103587057 (-69) := by decide
  have hheld : Binary64.Held 5902958103587057 (-69) := ⟨⟨by decide, by decide, by decide⟩, by decide⟩
  have hnumber : IsFiniteNumber (.decimal (.ofDecimal false 1 (-5))) := by
    rw [hfinite]
    exact hheld
  intro hdenoted
  have hwritten := (exists_denotesExactly_iff none (by decide) (.inr rfl) rfl hnumber).1 hdenoted
  refine (writtenExactly_iff (.inr rfl) hnumber).1 hwritten ?_
  exact ⟨by decide, false, 1, -5, by decide, by decide, by decide, rfl⟩

end SettingsHarvest.Nix
