import Mathlib.Data.List.TakeWhile
import SettingsHarvest.Proofs.Digits
import SettingsHarvest.Proofs.Escapes

/-! Ways to write a text in a literal.

Every character can be written in several ways (`CharWritten`): as it is, with its code in hexadecimal
digits, with a letter that names it, or behind a backslash that changes nothing. Between characters a
line can end behind a backslash (`Written`). However a text is written, its characters are told apart
again: an escape takes as many characters as it was written with and no more, whatever comes next
(`escape_eq_of_charWritten`), so decoding comes back to the text (`decode_of_written`). -/
namespace SettingsHarvest.Text
open Numeral

/-! ### Writing -/

/-- A number in hexadecimal digits of either case, with any number of zeros in front. -/
def Hexadecimal (digits : List Char) (n : Nat) : Prop :=
  ∃ zeros, digits.map Char.toLower = List.replicate zeros '0' ++ Nat.toDigits 16 n

/-- The letters that name a control character, each with the one it names. -/
def controlLetters : List (Char × Char) :=
  [('n', '\n'), ('t', '\t'), ('r', '\r'), ('b', '\x08'), ('f', '\x0c'), ('v', '\x0b')]

/-- The characters that end a line. -/
def lineTerminators : List Char := ['\n', '\r', '\u2028', '\u2029']

/-- The ends of lines: a character that ends one, or the two that do so together. -/
def lineEnds : List (List Char) := ['\r', '\n'] :: lineTerminators.map ([·])

/-- The characters that mean something else behind a backslash. -/
def ReadsOtherwise (c : Char) : Prop :=
  c.isDigit = true ∨ c = 'u' ∨ c = 'x' ∨ c ∈ controlLetters.map Prod.fst ∨ c ∈ lineTerminators

instance : DecidablePred ReadsOtherwise := fun c =>
  inferInstanceAs (Decidable (c.isDigit = true ∨ c = 'u' ∨ c = 'x' ∨ c ∈ controlLetters.map Prod.fst ∨
    c ∈ lineTerminators))

/-- The ways to write a character. -/
inductive CharWritten (c : Char) : List Char → Prop where
  | plain : c ≠ '\\' → c ≠ '\n' → c ≠ '\r' → CharWritten c [c]
  | twoDigits {digits : List Char} : Hexadecimal digits c.toNat → digits.length = 2 →
      CharWritten c ('\\' :: 'x' :: digits)
  | fourDigits {digits : List Char} : Hexadecimal digits c.toNat → digits.length = 4 →
      CharWritten c ('\\' :: 'u' :: digits)
  | braces {digits : List Char} : Hexadecimal digits c.toNat →
      CharWritten c ('\\' :: 'u' :: '\x7b' :: (digits ++ ['\x7d']))
  | letter {letter : Char} : (letter, c) ∈ controlLetters → CharWritten c ['\\', letter]
  | backslash : ¬ReadsOtherwise c → CharWritten c ['\\', c]

/-- The ways to write a text: its characters one after another, and lines that end behind a backslash
anywhere between them. -/
inductive Written : List Char → List Char → Prop where
  | nil : Written [] []
  | lineEnd {lineEnd body text : List Char} : lineEnd ∈ lineEnds → Written body text →
      Written ('\\' :: (lineEnd ++ body)) text
  | char {c : Char} {s body text : List Char} : CharWritten c s → Written body text →
      Written (s ++ body) (c :: text)

/-! ### Hexadecimal digits -/

theorem Hexadecimal.value {digits : List Char} {n : Nat} (h : Hexadecimal digits n) :
    digitsValue? 16 0 digits = some n := Spells.value (by decide) h (by decide)

theorem Hexadecimal.isHexDigit {digits : List Char} {n : Nat} (h : Hexadecimal digits n) :
    ∀ c ∈ digits, isHexDigit c = true := isHexDigit_of_digitsValue h.value

theorem Hexadecimal.ne_nil {digits : List Char} {n : Nat} (h : Hexadecimal digits n) : digits ≠ [] :=
  Spells.ne_nil h

/-! ### One escape -/

theorem codePoint_toNat (c : Char) : codePoint c.toNat = .ok [c.toNat] := by
  have hvalid := c.valid
  simp only [UInt32.isValidChar, Nat.isValidChar] at hvalid
  rw [codePoint, if_pos]
  show c.val.toNat ≤ _
  omega

theorem takeWhile_take_append {p : Char → Bool} {digits rest : List Char} {count : Nat}
    (h : ∀ c ∈ digits, p c = true) (hlength : digits.length = count) :
    ((digits ++ rest).take count).takeWhile p = digits := by
  rw [← hlength, List.take_left, List.takeWhile_eq_self_iff.2 h]

/-- The value of digits that an escape has read. -/
theorem Hexadecimal.codePoint {digits : List Char} {c : Char} (h : Hexadecimal digits c.toNat) :
    codePoint ((digitsValue? 16 0 digits).getD 0) = .ok [c.toNat] := by
  rw [h.value, Option.getD_some, codePoint_toNat]

section Escapes

variable {c : Char} {digits rest : List Char}

theorem escape_twoDigits (h : Hexadecimal digits c.toNat) (hlength : digits.length = 2) :
    escape ('x' :: (digits ++ rest)) = (3, .ok [c.toNat]) := by
  rw [escape, takeWhile_take_append h.isHexDigit hlength, hlength]
  exact congrArg (Prod.mk 3) h.codePoint

theorem escape_fourDigits (h : Hexadecimal digits c.toNat) (hlength : digits.length = 4) :
    escape ('u' :: (digits ++ rest)) = (5, .ok [c.toNat]) := by
  have hbrace : ∀ r, digits ++ rest = '\x7b' :: r → False := by
    intro r hr
    obtain ⟨d, more, rfl⟩ := List.exists_cons_of_ne_nil h.ne_nil
    have hd : d = '\x7b' := (List.cons.inj hr).1
    have hhex := h.isHexDigit d List.mem_cons_self
    rw [hd] at hhex
    exact absurd hhex (by decide)
  rw [escape, takeWhile_take_append h.isHexDigit hlength, hlength]
  · exact congrArg (Prod.mk 5) h.codePoint
  · exact hbrace

theorem escape_braces (h : Hexadecimal digits c.toNat) :
    escape ('u' :: '\x7b' :: (digits ++ ['\x7d'] ++ rest)) = (digits.length + 3, .ok [c.toNat]) := by
  have htake : (digits ++ ['\x7d'] ++ rest).takeWhile isHexDigit = digits := by
    rw [List.append_assoc, List.takeWhile_append_of_pos h.isHexDigit, List.singleton_append,
      List.takeWhile_cons_of_neg (by decide), List.append_nil]
  have hnext : ((digits ++ ['\x7d'] ++ rest).drop digits.length).head? = some '\x7d' := by
    rw [List.append_assoc, List.drop_left]
    rfl
  rw [escape, htake, hnext, if_pos (by simp [h.ne_nil])]
  exact congrArg (Prod.mk _) h.codePoint

/-- What a character stands for behind a backslash if it is no digit and starts nothing longer. -/
theorem escape_single (hdigit : c.isDigit = false) (hu : c ≠ 'u') (hx : c ≠ 'x')
    (hpair : c = '\r' → rest.head? ≠ some '\n') :
    escape (c :: rest) = (1, .ok <| match namedEscape? c with
      | some n => [n]
      | none => if c ∈ lineTerminators then [] else [c.toNat]) := by
  have hoctal : (!(((c :: rest).take 3).takeWhile fun d => '0' ≤ d && d ≤ '7').isEmpty) = false := by
    have hc : ('0' ≤ c && c ≤ '7') = false := by
      simp only [Char.isDigit, Bool.and_eq_false_iff, decide_eq_false_iff_not, ge_iff_le] at hdigit
      simp only [Char.le_def, Bool.and_eq_false_iff, decide_eq_false_iff_not]
      refine hdigit.imp_right fun hnine hseven => hnine (UInt32.le_trans hseven (by decide))
    simp [hc]
  unfold escape
  split
  · next heq => cases heq
  · next heq => exact absurd (List.cons.inj heq).1 hu
  · next heq => exact absurd (List.cons.inj heq).1 hu
  · next heq => exact absurd (List.cons.inj heq).1 hx
  · next heq =>
    obtain ⟨hc, hrest⟩ := List.cons.inj heq
    exact absurd (by rw [hrest]; rfl) (hpair hc)
  · next heq =>
    obtain ⟨rfl, rfl⟩ := List.cons.inj heq
    dsimp only
    split
    · next h => exact absurd (h.symm.trans hoctal) (by decide)
    · cases namedEscape? c with
      | some n => rfl
      | none =>
        simp only [lineTerminators, List.mem_cons, List.not_mem_nil, or_false, Bool.or_eq_true, beq_iff_eq,
          or_assoc]
        split <;> rfl

/-- A letter stands for the character it names. -/
theorem escape_letter {letter : Char} (h : (letter, c) ∈ controlLetters) :
    escape (letter :: rest) = (1, .ok [c.toNat]) := by
  simp only [controlLetters, List.mem_cons, Prod.mk.injEq, List.not_mem_nil, or_false] at h
  rcases h with ⟨rfl, rfl⟩ | ⟨rfl, rfl⟩ | ⟨rfl, rfl⟩ | ⟨rfl, rfl⟩ | ⟨rfl, rfl⟩ | ⟨rfl, rfl⟩ <;> rfl

/-- A character that means nothing else behind a backslash stands for itself. -/
theorem escape_backslash (h : ¬ReadsOtherwise c) : escape (c :: rest) = (1, .ok [c.toNat]) := by
  simp only [ReadsOtherwise, not_or, Bool.not_eq_true] at h
  obtain ⟨hdigit, hu, hx, hletter, hline⟩ := h
  have hname : namedEscape? c = none := by
    simp only [controlLetters, List.map_cons, List.map_nil, List.mem_cons, List.not_mem_nil, not_or] at hletter
    unfold namedEscape?
    split <;> simp_all
  rw [escape_single hdigit hu hx, hname]
  · simp [hline]
  · intro hc
    rw [hc] at hline
    exact absurd (by decide) hline

/-- The end of a line stands for nothing. -/
theorem escape_lineEnd {lineEnd : List Char} (h : lineEnd ∈ lineEnds) (hrest : rest.head? ≠ some '\n') :
    escape (lineEnd ++ rest) = (lineEnd.length, .ok []) := by
  simp only [lineEnds, lineTerminators, List.map_cons, List.map_nil, List.mem_cons, List.not_mem_nil,
    or_false] at h
  rcases h with rfl | rfl | rfl | rfl | rfl
  · rfl
  all_goals
    rw [List.singleton_append, escape_single (by decide) (by decide) (by decide) (by simp [hrest])]
    rfl

/-- **An escape takes what it was written with.** Whatever stands behind it, it stands for the character
it was written for and takes all of its own characters and no other. -/
theorem escape_eq_of_charWritten (h : CharWritten c ('\\' :: digits)) :
    escape (digits ++ rest) = (digits.length, .ok [c.toNat]) := by
  cases h with
  | plain hc => exact absurd rfl hc
  | twoDigits hdigits hlength =>
    rw [List.cons_append, escape_twoDigits hdigits hlength, List.length_cons, hlength]
  | fourDigits hdigits hlength =>
    rw [List.cons_append, escape_fourDigits hdigits hlength, List.length_cons, hlength]
  | braces hdigits =>
    rw [List.cons_append, List.cons_append, escape_braces hdigits]
    simp
  | letter hletter => exact escape_letter hletter
  | backslash hc => exact escape_backslash hc

end Escapes

/-! ### Literals -/

section Literals

variable {c : Char} {s body text : List Char} {points : List Nat}

theorem codePoints_skip (used body : List Char) :
    codePoints used.length (used ++ body) = codePoints 0 body := by
  induction used with
  | nil => rfl
  | cons c rest ih =>
    rw [List.length_cons, List.cons_append, codePoints]
    exact ih

theorem codePoints_escape (h : escape (s ++ body) = (s.length, .ok points)) {others : List Nat}
    (hbody : codePoints 0 body = .ok others) :
    codePoints 0 ('\\' :: (s ++ body)) = .ok (points ++ others) := by
  rw [codePoints, if_pos (by decide), h]
  dsimp only
  rw [codePoints_skip, hbody]

theorem codePoints_char (h : CharWritten c s) (hbody : codePoints 0 body = .ok points) :
    codePoints 0 (s ++ body) = .ok (c.toNat :: points) := by
  by_cases hplain : ∃ escaped, s = '\\' :: escaped
  · obtain ⟨escaped, rfl⟩ := hplain
    exact codePoints_escape (escape_eq_of_charWritten h) hbody
  · have hself : s = [c] ∧ c ≠ '\\' := by
      cases h with
      | plain hc => exact ⟨rfl, hc⟩
      | twoDigits | fourDigits | braces | letter | backslash => exact absurd ⟨_, rfl⟩ hplain
    obtain ⟨rfl, hc⟩ := hself
    rw [List.singleton_append, codePoints, if_neg (by simpa using hc), hbody]

/-- No text is written with a line feed in front, so that no end of a line becomes another one. -/
theorem Written.head?_ne (h : Written body text) : body.head? ≠ some '\n' := by
  cases h with
  | nil => simp
  | lineEnd => simp
  | char hc =>
    cases hc with
    | plain _ hfeed => simpa using hfeed
    | twoDigits | fourDigits | braces | letter | backslash => simp

theorem codePoints_written (h : Written body text) : codePoints 0 body = .ok (text.map Char.toNat) := by
  induction h with
  | nil => rfl
  | lineEnd hend hbody ih => exact codePoints_escape (escape_lineEnd hend hbody.head?_ne) ih
  | char hc _ ih =>
    rw [List.map_cons]
    exact codePoints_char hc ih

/-- The codes of characters are no halves, so each is a character of its own. -/
theorem characters_map_toNat (text : List Char) : characters (text.map Char.toNat) = text := by
  induction text with
  | nil => rfl
  | cons c rest ih =>
    cases rest with
    | nil => simp [characters]
    | cons d more =>
      have hwhole : (0xd800 ≤ c.toNat && c.toNat < 0xdc00) = false := by
        have hvalid := c.valid
        simp only [UInt32.isValidChar, Nat.isValidChar] at hvalid
        simp only [← Char.toNat_val, Bool.and_eq_false_iff, decide_eq_false_iff_not]
        omega
      rw [List.map_cons, List.map_cons, characters]
      split
      · next hhalves => exact absurd ((Bool.and_eq_true_iff.1 hhalves).1.symm.trans hwhole) (by decide)
      · rw [← List.map_cons, ih, Char.ofNat_toNat]

end Literals

/-- **Escapes are undone.** However a text is written in a literal, decoding comes back to it. -/
theorem decode_of_written {body text : List Char} (h : Written body text) : decode body = .ok text := by
  rw [decode, codePoints_written h]
  exact congrArg Except.ok (characters_map_toNat text)

/-- A text without backslashes, on one line, is decoded to itself. -/
theorem decode_plain {text : List Char} (h : ∀ c ∈ text, c ≠ '\\' ∧ c ≠ '\n' ∧ c ≠ '\r') :
    decode text = .ok text := by
  have hwritten : Written text text := by
    induction text with
    | nil => exact .nil
    | cons c rest ih =>
      obtain ⟨⟨hbackslash, hfeed, hreturn⟩, hrest⟩ := List.forall_mem_cons.1 h
      exact .char (.plain hbackslash hfeed hreturn) (ih hrest)
  exact decode_of_written hwritten

/-- Two digits with a digit behind them, capitals and zeros between braces, a line that ends in two
characters, a letter, four digits with a digit behind them, a lone backslash, and one more line end. -/
def mixedBody : List Char :=
  ['\\', 'x', '4', '1', 'b', '\\', 'u', '\x7b', '0', '0', '1', 'F', '6', '0', '0', '\x7d', '\\', '\r', '\n',
    '\\', 'n', '\\', 'u', '0', '0', 'e', '9', '9', '\\', 'q', '\\', '\r']

theorem mixed_body_decoded :
    Written mixedBody ['A', 'b', '😀', '\n', 'é', '9', 'q'] ∧
      decode mixedBody = .ok ['A', 'b', '😀', '\n', 'é', '9', 'q'] := by
  have hA : CharWritten 'A' ['\\', 'x', '4', '1'] := .twoDigits ⟨0, by decide⟩ rfl
  have hface : CharWritten '😀' ['\\', 'u', '\x7b', '0', '0', '1', 'F', '6', '0', '0', '\x7d'] :=
    @CharWritten.braces _ ['0', '0', '1', 'F', '6', '0', '0'] ⟨2, by decide⟩
  have hfeed : CharWritten '\n' ['\\', 'n'] := .letter (by decide)
  have haccent : CharWritten 'é' ['\\', 'u', '0', '0', 'e', '9'] := .fourDigits ⟨2, by decide⟩ rfl
  have hq : CharWritten 'q' ['\\', 'q'] := .backslash (by decide)
  have hend : Written ['\\', '\r'] [] := @Written.lineEnd ['\r'] _ _ (by decide) .nil
  have hwritten : Written mixedBody ['A', 'b', '😀', '\n', 'é', '9', 'q'] :=
    .char hA <| .char (.plain (by decide) (by decide) (by decide)) <| .char hface <|
      @Written.lineEnd ['\r', '\n'] _ _ (by decide) <| .char hfeed <| .char haccent <|
        .char (.plain (by decide) (by decide) (by decide)) <| .char hq hend
  exact ⟨hwritten, decode_of_written hwritten⟩

end SettingsHarvest.Text
