import SettingsHarvest.Proofs.IntegerLiterals
import SettingsHarvest.Proofs.Nix.NumericDefaults

/-! Ways to write a natural number.

Besides the ways to write an integer there are decimals: with a point, with an exponent, or with both
(`DecimalLiteral`). Below 2^53 floating point holds a natural number exactly, so a decimal for it rounds to
the number itself, however long the decimal is (`normalize_ofDecimal`), and every literal for the number is
read as it (`parse_numericLiteral`). -/
namespace SettingsHarvest.Numeral

/-! ### Writing -/

/-- Decimal digits with single bars between some of them, or nothing. -/
inductive Stretch : List Char → List Char → Prop where
  | nothing : Stretch [] []
  | digits {digits body : List Char} : (∀ c ∈ digits, c.isDigit = true) → Separated digits body →
      Stretch digits body

/-- The signs of exponents, and whether they negate. -/
def exponentSigns : List (List Char × Bool) := [([], false), (['+'], false), (['-'], true)]

/-- An exponent by its value; where none is written it is zero. -/
inductive Exponent : Int → List Char → Prop where
  | absent : Exponent 0 []
  | written {mark : Char} {sign digits body : List Char} {negative : Bool} {k : Nat} : mark ∈ ['e', 'E'] →
      (sign, negative) ∈ exponentSigns → Spells 10 digits k → Separated digits body →
      Exponent (Binary64.signed negative k) (mark :: (sign ++ body))

/-- A literal for a number in decimals: with a point and perhaps an exponent, or with an exponent alone. -/
inductive DecimalLiteral (n : Nat) : List Char → Prop where
  | pointed {whole fraction front back power : List Char} {m : Nat} {e : Int} : Stretch whole front →
      Stretch fraction back → Spells 10 (whole ++ fraction) m → Exponent e power →
      (m * 10 ^ (e - fraction.length) : ℚ) = n → DecimalLiteral n (front ++ '.' :: (back ++ power))
  | powered {whole front power : List Char} {m : Nat} {e : Int} : Separated whole front → Spells 10 whole m →
      Exponent e power → power ≠ [] → (m * 10 ^ e : ℚ) = n → DecimalLiteral n (front ++ power)

/-- A literal for a number. -/
inductive NumericLiteral (n : Nat) (text : List Char) : Prop where
  | integer {base : Nat} {digits : List Char} : IntegerLiteral n base digits text → NumericLiteral n text
  | decimal : DecimalLiteral n text → NumericLiteral n text

/-- A text that is no integer in more decimal digits than are read. -/
def Brief (n : Nat) (text : List Char) : Prop :=
  ∀ digits, IntegerLiteral n 10 digits text → digits.length ≤ longestNumeral

/-! ### Numbers that floating point holds -/

variable {n m : Nat}

/-- A decimal that comes to a small natural number rounds as this number does. -/
theorem ofDecimal_eq_ofInt {p : Int} (hn : n < Value.safeIntegerBound) (h : (m * 10 ^ p : ℚ) = n) :
    Binary64.ofDecimal false m p = Binary64.ofInt n := by
  have hheld : (Binary64.ofInt n).toInt? = some (n : Int) := Nix.toInt?_ofInt hn
  rcases Nat.eq_zero_or_pos m with rfl | hm
  · obtain rfl : n = 0 := by simpa using h.symm
    rfl
  have hpos : 0 < n := by
    have hleft : (0 : ℚ) < m * 10 ^ p := by positivity
    rw [h] at hleft
    exact_mod_cast hleft
  cases hx : Binary64.ofInt n with
  | infinite | nan =>
    rw [hx] at hheld
    cases hheld
  | finite s M e =>
    obtain ⟨hs, hM, hrounds⟩ := (Binary64.ofRatio_eq_finite_iff hpos Nat.one_pos).1 hx
    refine (Binary64.ofDecimal_eq_finite_iff hm).2 ⟨?_, hM, ?_⟩
    · rw [← hs]
      simp
    · rw [h]
      simpa using hrounds

theorem normalize_ofDecimal {p : Int} (hn : n < Value.safeIntegerBound) (h : (m * 10 ^ p : ℚ) = n) :
    (Value.decimal (.ofDecimal false m p)).normalize = .integer n := by
  have hbound : (n : Int).natAbs < Value.safeIntegerBound := hn
  rw [ofDecimal_eq_ofInt hn h, Value.normalize, Nix.toInt?_ofInt hbound]
  dsimp only
  rw [if_pos hbound]

/-! ### Characters of decimals -/

def decimalChars : List Char := ['0', '1', '2', '3', '4', '5', '6', '7', '8', '9', '.', 'e', 'E', '+', '-']

theorem mem_decimalChars {c : Char} (h : c.isDigit = true) : c ∈ decimalChars := by
  have hbounds := bounds_of_isDigit h
  have hall : ∀ k < 58, 48 ≤ k → Char.ofNat k ∈ decimalChars := by decide
  have hc := hall c.toNat (Nat.lt_succ_of_le hbounds.2) hbounds.1
  rwa [Char.ofNat_toNat] at hc

theorem decimalChars_plain {c : Char} (h : c ∈ decimalChars) :
    c.toNat < 0x80 ∧ isPlainSpace c = false ∧ c.toLower ∉ ['x', 'o', 'b'] := by
  have hall : decimalChars.all (fun c => decide (c.toNat < 0x80) && isPlainSpace c == false &&
      decide (c.toLower ∉ ['x', 'o', 'b'])) = true := by decide +kernel
  have hc := List.all_eq_true.1 hall c h
  simpa [and_assoc] using hc

/-- A text that starts as numbers without a sign do. -/
def StartsNumber (cs : List Char) : Prop := ∃ c r, cs = c :: r ∧ (c.isDigit = true ∨ c = '.')

section Starts

variable {whole : List Char} (hwhole : ∀ c ∈ whole, c.isDigit = true) (rest : List Char)

include hwhole

theorem startsNumber_point : StartsNumber (whole ++ '.' :: rest) := by
  cases whole with
  | nil => exact ⟨'.', rest, rfl, .inr rfl⟩
  | cons c r => exact ⟨c, _, rfl, .inl (hwhole c List.mem_cons_self)⟩

theorem startsNumber_digits (hne : whole ≠ []) : StartsNumber (whole ++ rest) := by
  cases whole with
  | nil => exact absurd rfl hne
  | cons c r => exact ⟨c, _, rfl, .inl (hwhole c List.mem_cons_self)⟩

end Starts

section Chars

variable {text cs : List Char} (hcs : ∀ c ∈ cs, c ∈ decimalChars)

include hcs

theorem lower_decimal : Text.lower (String.ofList cs) = String.ofList (cs.map Char.toLower) := by
  refine lower_each fun c hc => ?_
  obtain ⟨hascii, -⟩ := decimalChars_plain (hcs c hc)
  refine ⟨?_, lowerChar_ascii hascii⟩
  rintro rfl
  exact absurd hascii (by decide)

theorem hasBasePrefix_decimal : hasBasePrefix (cs.map Char.toLower) = false := by
  unfold hasBasePrefix
  split
  · next x _ heq =>
    have hx : x ∈ cs.map Char.toLower := by rw [heq]; simp
    obtain ⟨c, hc, rfl⟩ := List.mem_map.1 hx
    obtain ⟨-, -, hmark⟩ := decimalChars_plain (hcs c hc)
    simpa [and_assoc] using hmark
  · rfl

/-- With a point or a mark among them, they are no integer of any sort. -/
theorem parse_of_readDecimal (h : text.filter (· != '_') = cs) (hmark : '.' ∈ cs ∨ 'e' ∈ cs ∨ 'E' ∈ cs)
    {x : Binary64} (hx : readDecimal? (String.ofList cs) = some x) :
    parse (String.ofList text) = .ok (Value.decimal x).normalize := by
  have hlast (d : Char) (hd : d ∉ decimalChars) : cs.getLast? ≠ some d := fun hlast =>
    hd (hcs d (List.mem_of_getLast? hlast))
  have hchomp : chomp cs = cs := by
    rw [chomp, if_neg (by simpa using hlast '\n' (by decide))]
  have hsuffix : ¬(cs.getLast? == some 'n') = true := by simpa using hlast 'n' (by decide)
  obtain ⟨mark, hmem, hzero, hten, height⟩ : ∃ mark ∈ cs, mark ≠ '0' ∧ ('0' ≤ mark && mark ≤ '9') = false ∧
      ('0' ≤ mark && mark ≤ '7') = false := by
    rcases hmark with hmem | hmem | hmem
    · exact ⟨'.', hmem, by decide⟩
    · exact ⟨'e', hmem, by decide⟩
    · exact ⟨'E', hmem, by decide⟩
  have hoctal : isLegacyOctal cs = false := by
    unfold isLegacyOctal
    rw [hchomp]
    split
    · next r =>
      have hrest : mark ∈ r := (List.mem_cons.1 hmem).resolve_left hzero
      exact Bool.and_eq_false_iff.2 (.inr (List.all_eq_false.2 ⟨mark, hrest, by simp [height]⟩))
    · rfl
  have hdecimal : isDecimalInteger cs = false := by
    unfold isDecimalInteger
    rw [hchomp]
    exact Bool.and_eq_false_iff.2 (.inr (List.all_eq_false.2 ⟨mark, hmem, by simp [hten]⟩))
  simp only [parse, String.toList_ofList, h, lower_decimal hcs, hasBasePrefix_decimal hcs, hoctal, hdecimal, hx,
    if_neg hsuffix, Bool.false_eq_true, if_false]

/-- Nothing is taken off what starts with no sign. -/
theorem readDecimal_eq (hstart : StartsNumber cs) :
    readDecimal? (String.ofList cs) = magnitude? false cs := by
  obtain ⟨c, r, rfl, hc⟩ := hstart
  have hplain : plain (c :: r) = c :: r := by
    rw [plain, if_pos]
    exact List.all_eq_true.2 fun d hd => by simpa using (decimalChars_plain (hcs d hd)).1
  have htrim : trim (c :: r) = c :: r := trim_of_no_blank fun d hd => (decimalChars_plain (hcs d hd)).2.1
  have hsplit : splitSign (c :: r) = (false, c :: r) := by
    unfold splitSign
    split
    · next heq =>
      cases heq
      exact absurd hc (by decide)
    · next heq =>
      cases heq
      exact absurd hc (by decide)
    · rfl
  rw [readDecimal?, String.toList_ofList, hplain, htrim, hsplit]

end Chars

/-! ### Mantissa and exponent -/

/-- The digits behind a point, and what comes behind them. -/
def splitFraction : List Char → List Char × List Char
  | '.' :: r => (r.takeWhile Char.isDigit, r.dropWhile Char.isDigit)
  | r => ([], r)

section Magnitude

variable {whole fraction power : List Char} {e : Int}

/-- What starts with a digit or a point is none of the words for numbers. -/
theorem magnitude_eq {cs : List Char} (hstart : StartsNumber cs) :
    magnitude? false cs =
      match natural? 10 (cs.takeWhile Char.isDigit ++ (splitFraction (cs.dropWhile Char.isDigit)).1),
        exponent? (splitFraction (cs.dropWhile Char.isDigit)).2 with
      | some n, some e => some (.ofDecimal false n (e - (splitFraction (cs.dropWhile Char.isDigit)).1.length))
      | _, _ => none := by
  obtain ⟨c, rest, rfl, hc⟩ := hstart
  have hbefore : c.toNat < 'A'.toNat := by
    rcases hc with hdigit | rfl
    · exact Nat.lt_of_le_of_lt (bounds_of_isDigit hdigit).2 (by decide)
    · decide
  have hsame : (if 'A' ≤ c && c ≤ 'Z' then Char.ofNat (c.toNat + 0x20) else c) = c := by
    refine if_neg fun hcapital => ?_
    have hcapital : 'A' ≤ c := by simpa using (Bool.and_eq_true_iff.1 hcapital).1
    exact Nat.not_le_of_lt hbefore hcapital
  have hword {word : List Char} (hletter : ∃ d r, word = d :: r ∧ 'A'.toNat ≤ d.toNat) :
      ¬((c :: rest).map (fun c => if 'A' ≤ c && c ≤ 'Z' then Char.ofNat (c.toNat + 0x20) else c) == word) =
        true := by
    obtain ⟨d, r, rfl, hd⟩ := hletter
    intro heq
    obtain ⟨heq, -⟩ := List.cons.inj (eq_of_beq heq)
    rw [← hsame.symm.trans heq] at hd
    exact Nat.not_le_of_lt hbefore hd
  unfold magnitude?
  dsimp only
  rw [if_neg ?_, if_neg ?_]
  · rfl
  · exact hword ⟨'n', _, rfl, by decide⟩
  · rw [Bool.or_eq_true]
    rintro (hinf | hinfinity)
    · exact hword ⟨'i', _, rfl, by decide⟩ hinf
    · exact hword ⟨'i', _, rfl, by decide⟩ hinfinity

theorem span_digits {rest : List Char} (hwhole : ∀ c ∈ whole, c.isDigit = true)
    (hrest : ∀ c ∈ rest.head?, c.isDigit = false) :
    (whole ++ rest).takeWhile Char.isDigit = whole ∧ (whole ++ rest).dropWhile Char.isDigit = rest := by
  rw [List.takeWhile_append_of_pos hwhole, List.dropWhile_append_of_pos hwhole]
  cases rest with
  | nil => simp
  | cons c rest => simp [hrest c rfl]

/-- Digits with a point among them, and an exponent. -/
theorem magnitude_pointed (hwhole : ∀ c ∈ whole, c.isDigit = true)
    (hfraction : ∀ c ∈ fraction, c.isDigit = true)
    (hvalue : natural? 10 (whole ++ fraction) = some m) (hpower : ∀ c ∈ power.head?, c.isDigit = false)
    (he : exponent? power = some e) :
    magnitude? false (whole ++ '.' :: (fraction ++ power)) =
      some (.ofDecimal false m (e - fraction.length)) := by
  have hstart := startsNumber_point hwhole (fraction ++ power)
  have hpoint : ∀ c ∈ ('.' :: (fraction ++ power)).head?, c.isDigit = false := by
    rintro _ ⟨⟩
    decide
  obtain ⟨hwhole, hrest⟩ := span_digits hwhole hpoint
  obtain ⟨hfraction, hpower⟩ := span_digits hfraction hpower
  rw [magnitude_eq hstart, hrest, splitFraction, hwhole, hfraction, hpower]
  dsimp only
  rw [hvalue, he]

/-- Digits without a point, and an exponent. -/
theorem magnitude_powered (hwhole : ∀ c ∈ whole, c.isDigit = true) (hvalue : natural? 10 whole = some m)
    (hpower : ∀ c ∈ power.head?, c.isDigit = false ∧ c ≠ '.') (he : exponent? power = some e) :
    magnitude? false (whole ++ power) = some (.ofDecimal false m e) := by
  have hstart : StartsNumber (whole ++ power) := by
    refine startsNumber_digits hwhole power ?_
    rintro rfl
    cases hvalue
  obtain ⟨hwhole, hrest⟩ := span_digits hwhole fun c hc => (hpower c hc).1
  have hnoPoint : splitFraction power = ([], power) := by
    unfold splitFraction
    split
    · exact absurd rfl (hpower _ rfl).2
    · rfl
  rw [magnitude_eq hstart, hrest, hnoPoint, hwhole, List.append_nil]
  dsimp only
  rw [hvalue, he]
  simp

end Magnitude

/-! ### Reading -/

section Reading

variable {digits body text front back power : List Char} {e : Int}

theorem Spells.isDigit (h : Spells 10 digits m) : ∀ c ∈ digits, c.isDigit = true :=
  isDigit_of_value (by decide) (h.value (by decide) (by decide))

theorem Spells.natural (h : Spells 10 digits m) : natural? 10 digits = some m :=
  natural?_of_value (h.value (by decide) (by decide)) h.ne_nil

theorem Separated.filter_digits (h : Separated digits body) (hdigits : ∀ c ∈ digits, c.isDigit = true) :
    body.filter (· != '_') = digits :=
  h.filter fun c hc => by simp [Char.isAlphanum, hdigits c hc]

theorem Stretch.filter (h : Stretch digits body) :
    body.filter (· != '_') = digits ∧ ∀ c ∈ digits, c.isDigit = true := by
  cases h with
  | nothing => exact ⟨rfl, nofun⟩
  | digits hdigits hbody => exact ⟨hbody.filter_digits hdigits, hdigits⟩

/-- An exponent without its bars. -/
structure PlainExponent (e : Int) (cs : List Char) : Prop where
  value : exponent? cs = some e
  chars : ∀ c ∈ cs, c ∈ decimalChars
  mark : ∀ c ∈ cs.head?, c = 'e' ∨ c = 'E'

theorem splitSign_append {sign : List Char} {negative : Bool} (hsign : (sign, negative) ∈ exponentSigns)
    (hdigits : ∀ c ∈ digits, c.isAlphanum = true) : splitSign (sign ++ digits) = (negative, digits) := by
  simp only [exponentSigns, List.mem_cons, Prod.mk.injEq, List.not_mem_nil, or_false] at hsign
  rcases hsign with ⟨rfl, rfl⟩ | ⟨rfl, rfl⟩ | ⟨rfl, rfl⟩
  · exact splitSign_alphanum hdigits
  · rfl
  · rfl

theorem Exponent.plain (h : Exponent e power) : PlainExponent e (power.filter (· != '_')) := by
  cases h with
  | absent => exact ⟨rfl, nofun, nofun⟩
  | @written mark sign digits body negative k hmark hsign hdigits hbody =>
    have hmark : mark = 'e' ∨ mark = 'E' := by simpa using hmark
    have hsigns : ∀ s ∈ exponentSigns, s.1.filter (· != '_') = s.1 ∧ s.1 ⊆ decimalChars := by decide
    obtain ⟨hsignFilter, hsignChars⟩ := hsigns _ hsign
    have hplain : (mark :: (sign ++ body)).filter (· != '_') = mark :: (sign ++ digits) := by
      rw [List.filter_cons_of_pos (by rcases hmark with rfl | rfl <;> decide), List.filter_append, hsignFilter,
        hbody.filter_digits hdigits.isDigit]
    have halphanum : ∀ c ∈ digits, c.isAlphanum = true := fun c hc => by
      simp [Char.isAlphanum, hdigits.isDigit c hc]
    rw [hplain]
    refine ⟨?_, ?_, ?_⟩
    · unfold exponent?
      dsimp only
      rw [if_neg (by rcases hmark with rfl | rfl <;> decide), splitSign_append hsign halphanum]
      dsimp only
      rw [hdigits.natural]
      rfl
    · refine List.forall_mem_cons.2 ⟨by rcases hmark with rfl | rfl <;> decide, ?_⟩
      exact List.forall_mem_append.2
        ⟨fun c hc => hsignChars hc, fun c hc => mem_decimalChars (hdigits.isDigit c hc)⟩
    · rintro _ ⟨⟩
      exact hmark

theorem Exponent.marked (h : Exponent e power) (hne : power ≠ []) :
    'e' ∈ power.filter (· != '_') ∨ 'E' ∈ power.filter (· != '_') := by
  cases h with
  | absent => exact absurd rfl hne
  | written hmark =>
    have hmark := List.mem_pair.1 hmark
    rcases hmark with rfl | rfl
    · exact .inl (List.mem_filter.2 ⟨List.mem_cons_self, by decide⟩)
    · exact .inr (List.mem_filter.2 ⟨List.mem_cons_self, by decide⟩)

theorem PlainExponent.noDigit {cs : List Char} (h : PlainExponent e cs) :
    ∀ c ∈ cs.head?, c.isDigit = false ∧ c ≠ '.' := by
  intro c hc
  rcases h.mark c hc with rfl | rfl <;> decide

/-- Below 2^53 every decimal for a number is read as it. -/
theorem parse_decimalLiteral (h : DecimalLiteral n text) (hn : n < Value.safeIntegerBound) :
    parse (String.ofList text) = .ok (.integer n) := by
  cases h with
  | @pointed whole fraction front back power m e hwhole hfraction hspells hpower hvalue =>
    obtain ⟨hfront, hwhole⟩ := hwhole.filter
    obtain ⟨hback, hfraction⟩ := hfraction.filter
    have hplain := hpower.plain
    have hfilter : (front ++ '.' :: (back ++ power)).filter (· != '_') =
        whole ++ '.' :: (fraction ++ power.filter (· != '_')) := by
      rw [List.filter_append, List.filter_cons_of_pos (by decide), List.filter_append, hfront, hback]
    have hchars : ∀ c ∈ whole ++ '.' :: (fraction ++ power.filter (· != '_')), c ∈ decimalChars := by
      refine List.forall_mem_append.2 ⟨fun c hc => mem_decimalChars (hwhole c hc), ?_⟩
      refine List.forall_mem_cons.2 ⟨by decide, List.forall_mem_append.2 ⟨?_, hplain.chars⟩⟩
      exact fun c hc => mem_decimalChars (hfraction c hc)
    have hread := magnitude_pointed hwhole hfraction hspells.natural
      (fun c hc => (hplain.noDigit c hc).1) hplain.value
    rw [← readDecimal_eq hchars (startsNumber_point hwhole _)] at hread
    rw [parse_of_readDecimal hchars hfilter (.inl (by simp)) hread, normalize_ofDecimal hn hvalue]
  | @powered whole front power m e hfront hspells hpower hne hvalue =>
    have hwhole := hspells.isDigit
    have hplain := hpower.plain
    have hfilter : (front ++ power).filter (· != '_') = whole ++ power.filter (· != '_') := by
      rw [List.filter_append, hfront.filter_digits hwhole]
    have hchars : ∀ c ∈ whole ++ power.filter (· != '_'), c ∈ decimalChars :=
      List.forall_mem_append.2 ⟨fun c hc => mem_decimalChars (hwhole c hc), hplain.chars⟩
    have hmark := (hpower.marked hne).imp (List.mem_append_right whole) (List.mem_append_right whole)
    have hread := magnitude_powered hwhole hspells.natural hplain.noDigit hplain.value
    rw [← readDecimal_eq hchars (startsNumber_digits hwhole _ hspells.ne_nil)] at hread
    rw [parse_of_readDecimal hchars hfilter (.inr hmark) hread, normalize_ofDecimal hn hvalue]

theorem length_toDigits_le (hn : n < Value.safeIntegerBound) : (Nat.toDigits 10 n).length ≤ longestNumeral := by
  have hshort : (Nat.toDigits 10 n).length ≤ 16 :=
    (Nat.length_toDigits_le_iff (by decide) (by decide)).2 (Nat.lt_trans hn (by decide))
  exact Nat.le_trans hshort (by decide)

theorem separated_self {digits : List Char} (hne : digits ≠ []) : Separated digits digits := by
  induction digits with
  | nil => exact absurd rfl hne
  | cons c r ih =>
    cases r with
    | nil => exact .last c
    | cons d r => exact .next c (ih (List.cons_ne_nil d r))

/-- The decimal digits of a number are a literal for it. -/
theorem numericLiteral_digits (n : Nat) : NumericLiteral n (Nat.toDigits 10 n) := by
  have hliteral : IntegerLiteral n 10 (Nat.toDigits 10 n) (Nat.toDigits 10 n ++ []) :=
    .decimal (separated_self Nat.toDigits_ne_nil) (by decide)
  rw [List.append_nil] at hliteral
  exact .integer hliteral

theorem Separated.length_le (h : Separated digits body) : digits.length ≤ body.length := by
  induction h with
  | last => exact Nat.le_refl 1
  | next _ _ ih => exact Nat.succ_le_succ ih
  | bar _ _ ih => exact Nat.succ_le_succ (Nat.le_succ_of_le ih)

/-- Short texts are brief. -/
theorem brief_of_length (h : text.length ≤ longestNumeral) : Brief n text := by
  intro digits hliteral
  refine Nat.le_trans ?_ h
  cases hliteral with
  | decimal hbody =>
    rw [List.length_append]
    exact Nat.le_add_right_of_le hbody.length_le
  | based _ _ hbody =>
    rw [List.length_cons, List.length_cons, List.length_append]
    exact Nat.le_trans hbody.length_le (by omega)
  | leadingZeros => exact Nat.le_refl _

/-- **Numeric literals.** Below 2^53 every literal for a number is read as this number. -/
theorem parse_numericLiteral (h : NumericLiteral n text) (hbrief : Brief n text)
    (hn : n < Value.safeIntegerBound) : parse (String.ofList text) = .ok (.integer n) := by
  cases h with
  | integer h =>
    rw [parse_integerLiteral h, if_neg]
    rintro ⟨rfl, hlong⟩
    exact Nat.not_le_of_lt hlong (hbrief _ h)
  | decimal h => exact parse_decimalLiteral h hn

end Reading

end SettingsHarvest.Numeral
