import Mathlib.Algebra.Group.Nat.Defs
import SettingsHarvest.Proofs.Attempt
import SettingsHarvest.Text.Escape

/-! Escapes that stand for nothing.

Four hexadecimal digits, two of them, or three octal ones always name a code point. Digits in braces
may name a larger number, and that is the one way in which a literal cannot be read: `decode_error_iff`
says so exactly, for the escapes at the places where reading a literal comes to them. -/
namespace SettingsHarvest.Text
open Numeral

/-- The texts behind the backslashes that start an escape; the first `skip` characters belong to the
escape before. -/
def escapesFrom : Nat → List Char → List (List Char)
  | _, [] => []
  | skip + 1, _ :: r => escapesFrom skip r
  | 0, c :: r => if c == '\\' then r :: escapesFrom (escape r).1 r else escapesFrom 0 r

/-- The escapes in the body of a literal, each with all that is behind it. -/
def escapes (body : List Char) : List (List Char) := escapesFrom 0 body

/-- Digits in braces that name a number behind the last code point. -/
def NamesNoCodePoint (behindBackslash : List Char) : Prop :=
  ∃ digits behind n, behindBackslash = 'u' :: '\x7b' :: (digits ++ '\x7d' :: behind) ∧
    natural? 16 digits = some n ∧ 0x10ffff < n

/-! ### Digits -/

theorem digitsValue_lt {base acc n : Nat} {digits : List Char}
    (h : digitsValue? base acc digits = some n) : n < (acc + 1) * base ^ digits.length := by
  induction digits generalizing acc with
  | nil =>
    cases h
    simp
  | cons c rest ih =>
    unfold digitsValue? at h
    split at h
    · next d _ =>
      split at h
      · next hd =>
        have hrest := ih h
        have hacc : acc * base + d + 1 ≤ (acc + 1) * base := by
          rw [Nat.add_mul, Nat.one_mul]
          omega
        calc n < (acc * base + d + 1) * base ^ rest.length := hrest
          _ ≤ (acc + 1) * base * base ^ rest.length := Nat.mul_le_mul_right _ hacc
          _ = (acc + 1) * base ^ (c :: rest).length := by
            rw [List.length_cons, Nat.pow_succ', Nat.mul_assoc]
      · cases h
    · cases h

/-- Few digits name a small number. -/
theorem digitsValue_getD_lt {base : Nat} {digits : List Char} (hbase : 0 < base) {count : Nat}
    (hcount : digits.length ≤ count) : (digitsValue? base 0 digits).getD 0 < base ^ count := by
  cases h : digitsValue? base 0 digits with
  | none => exact Nat.pow_pos hbase
  | some n =>
    have hn := digitsValue_lt h
    rw [Nat.zero_add, Nat.one_mul] at hn
    exact Nat.lt_of_lt_of_le hn (Nat.pow_le_pow_right hbase hcount)

/-! ### One escape -/

theorem codePoint_eq_error {n : Nat} {f : Fault} (h : codePoint n = .error f) :
    0x10ffff < n ∧ (f = .codePointOutOfRange ∨ f = .codePointTooLarge) := by
  unfold codePoint at h
  split at h
  · cases h
  · next hlarge =>
    refine ⟨Nat.lt_of_not_le hlarge, ?_⟩
    split at h
    · cases h
      exact Or.inl rfl
    · cases h
      exact Or.inr rfl

theorem codePoint_ne_error {n : Nat} {f : Fault} (h : n ≤ 0x10ffff) : codePoint n ≠ .error f :=
  fun he => Nat.not_lt_of_le h (codePoint_eq_error he).1

theorem codePoint_few_digits {base count : Nat} {digits : List Char} {f : Fault}
    (hbase : 0 < base) (hcount : digits.length ≤ count) (hfew : base ^ count ≤ 0x110000) :
    codePoint ((digitsValue? base 0 digits).getD 0) ≠ .error f :=
  codePoint_ne_error (Nat.le_of_lt_succ
    (Nat.lt_of_lt_of_le (digitsValue_getD_lt hbase hcount) hfew))

theorem length_takeWhile_take_le (p : Char → Bool) (count : Nat) (cs : List Char) :
    ((cs.take count).takeWhile p).length ≤ count :=
  Nat.le_trans (List.takeWhile_prefix p).length_le (List.length_take_le count cs)

/-- Digits in braces, as an escape finds them. -/
theorem namesNoCodePoint_of_braces {r : List Char} {n : Nat}
    (hnext : (r.drop (r.takeWhile isHexDigit).length).head? = some '\x7d')
    (hn : (digitsValue? 16 0 (r.takeWhile isHexDigit)).getD 0 = n) (hlarge : 0x10ffff < n) :
    NamesNoCodePoint ('u' :: '\x7b' :: r) := by
  have hsome : digitsValue? 16 0 (r.takeWhile isHexDigit) = some n := by
    cases hvalue : digitsValue? 16 0 (r.takeWhile isHexDigit) with
    | none =>
      rw [hvalue] at hn
      subst hn
      cases hlarge
    | some m =>
      rw [hvalue] at hn
      rw [← hn, Option.getD_some]
  have hdigits : natural? 16 (r.takeWhile isHexDigit) = some n := by
    cases hdigits : r.takeWhile isHexDigit with
    | nil =>
      rw [hdigits] at hsome
      cases hsome
      cases hlarge
    | cons d rest =>
      rw [hdigits] at hsome
      exact hsome
  obtain ⟨behind, hbehind⟩ : ∃ behind, r.drop (r.takeWhile isHexDigit).length = '\x7d' :: behind := by
    cases hdrop : r.drop (r.takeWhile isHexDigit).length with
    | nil => simp [hdrop] at hnext
    | cons c behind =>
      rw [hdrop] at hnext
      cases hnext
      exact ⟨behind, rfl⟩
  refine ⟨r.takeWhile isHexDigit, behind, n, ?_, hdigits, hlarge⟩
  rw [← hbehind, List.prefix_iff_eq_append.1 (List.takeWhile_prefix isHexDigit)]

theorem isHexDigit_of_digitsValue {base acc n : Nat} {digits : List Char}
    (h : digitsValue? base acc digits = some n) : ∀ c ∈ digits, isHexDigit c = true := by
  induction digits generalizing acc with
  | nil => exact nofun
  | cons c rest ih =>
    unfold digitsValue? at h
    split at h
    · next d hd =>
      split at h
      · refine List.forall_mem_cons.2 ⟨?_, ih h⟩
        rw [isHexDigit, hd, Option.isSome_some]
      · cases h
    · cases h

/-- Such digits are what an escape in braces reads. -/
theorem exists_escape_error {cs : List Char} (h : NamesNoCodePoint cs) :
    ∃ f, (escape cs).2 = .error f := by
  obtain ⟨digits, behind, n, rfl, hn, hlarge⟩ := h
  unfold natural? at hn
  split at hn
  · cases hn
  · next hdigits =>
    have htake : (digits ++ '\x7d' :: behind).takeWhile isHexDigit = digits := by
      rw [List.takeWhile_append_of_pos (isHexDigit_of_digitsValue hn),
        List.takeWhile_cons_of_neg (by decide), List.append_nil]
    have hcode : ∃ f, codePoint n = .error f := by
      rw [codePoint, if_neg (Nat.not_le_of_lt hlarge)]
      split
      · exact ⟨_, rfl⟩
      · exact ⟨_, rfl⟩
    obtain ⟨f, hf⟩ := hcode
    refine ⟨f, ?_⟩
    have hempty : digits.isEmpty = false := by simpa using hdigits
    simp only [escape, htake, hempty, List.drop_left, List.head?_cons, beq_self_eq_true,
      Bool.not_false, Bool.and_true, if_true]
    have hvalue : (digitsValue? 16 0 digits).getD 0 = n := by rw [hn, Option.getD_some]
    rw [← hvalue] at hf
    exact hf

/-- Only digits in braces can fail to name a code point. -/
theorem escape_eq_error {cs : List Char} {f : Fault} (h : (escape cs).2 = .error f) :
    NamesNoCodePoint cs ∧ (f = .codePointOutOfRange ∨ f = .codePointTooLarge) := by
  unfold escape at h
  split at h
  · cases h
  · next r =>
    dsimp only at h
    split at h
    · next hbraces =>
      obtain ⟨hlarge, hf⟩ := codePoint_eq_error h
      have hnext := eq_of_beq (Bool.and_eq_true_iff.1 hbraces).2
      exact ⟨namesNoCodePoint_of_braces hnext rfl hlarge, hf⟩
    · cases h
  · dsimp only at h
    split at h
    · exact absurd h (codePoint_few_digits (by decide) (length_takeWhile_take_le _ 4 _) (by decide))
    · cases h
  · dsimp only at h
    split at h
    · exact absurd h (codePoint_few_digits (by decide) (length_takeWhile_take_le _ 2 _) (by decide))
    · cases h
  · cases h
  · dsimp only at h
    split at h
    · exact absurd h (codePoint_few_digits (by decide) (length_takeWhile_take_le _ 3 _) (by decide))
    · split at h
      · cases h
      · split at h <;> cases h

/-! ### A literal -/

theorem error_of_map {α β : Type} {x : Except Fault α} {g : α → β} {f : Fault}
    (h : x.map g = .error f) : x = .error f := by
  cases x with
  | ok a => cases h
  | error g =>
    cases h
    rfl

theorem codePoints_eq_error {f : Fault} {body : List Char} {skip : Nat}
    (h : codePoints skip body = .error f) :
    (∃ rest ∈ escapesFrom skip body, NamesNoCodePoint rest) ∧
      (f = .codePointOutOfRange ∨ f = .codePointTooLarge) := by
  induction body generalizing skip f with
  | nil => cases skip <;> cases h
  | cons c r ih =>
    cases skip with
    | succ skip => exact ih h
    | zero =>
      unfold codePoints at h
      unfold escapesFrom
      split at h
      · next hc =>
        rw [if_pos hc]
        dsimp only at h
        split at h
        · cases h
        · next hescape =>
          cases h
          obtain ⟨hnames, hf⟩ := escape_eq_error hescape
          exact ⟨⟨r, List.mem_cons_self, hnames⟩, hf⟩
        · next hrest _ =>
          cases h
          obtain ⟨⟨rest, hmem, hnames⟩, hf⟩ := ih hrest
          exact ⟨⟨rest, List.mem_cons_of_mem r hmem, hnames⟩, hf⟩
      · next hc =>
        rw [if_neg hc]
        split at h
        · cases h
        · next hrest =>
          cases h
          exact ih hrest

theorem exists_codePoints_error {body : List Char} {skip : Nat}
    (h : ∃ rest ∈ escapesFrom skip body, NamesNoCodePoint rest) :
    ∃ f, codePoints skip body = .error f := by
  induction body generalizing skip with
  | nil => cases skip <;> simp [escapesFrom] at h
  | cons c r ih =>
    cases skip with
    | succ skip => exact ih h
    | zero =>
      unfold escapesFrom at h
      unfold codePoints
      split at h
      · next hc =>
        rw [if_pos hc]
        dsimp only
        obtain ⟨rest, hmem, hnames⟩ := h
        rcases List.mem_cons.1 hmem with rfl | hmem
        · obtain ⟨f, hf⟩ := exists_escape_error hnames
          exact ⟨f, by rw [hf]⟩
        · obtain ⟨f, hf⟩ := ih ⟨rest, hmem, hnames⟩
          rw [hf]
          cases (escape r).2 with
          | ok points => exact ⟨f, rfl⟩
          | error g => exact ⟨g, rfl⟩
      · next hc =>
        rw [if_neg hc]
        obtain ⟨f, hf⟩ := ih h
        exact ⟨f, by rw [hf]⟩

/-- **What cannot be read.** The body of a literal cannot be read exactly if one of its escapes is a
number in braces behind the last code point. -/
theorem decode_error_iff {body : List Char} :
    (∃ f, decode body = .error f) ↔ ∃ rest ∈ escapes body, NamesNoCodePoint rest := by
  constructor
  · rintro ⟨f, h⟩
    exact (codePoints_eq_error (error_of_map h)).1
  · intro h
    obtain ⟨f, hf⟩ := exists_codePoints_error h
    exact ⟨f, by rw [decode, hf]; rfl⟩

theorem decode_eq_error {body : List Char} {f : Fault} (h : decode body = .error f) :
    f = .codePointOutOfRange ∨ f = .codePointTooLarge :=
  (codePoints_eq_error (error_of_map h)).2
end SettingsHarvest.Text
