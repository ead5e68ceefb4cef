import SettingsHarvest.Nix.Term

/-! What indented strings denote.

`readIndented` reads a text as the Nix language does behind an opening pair of quotes: a pair takes a
third quote, a dollar sign or an escape to itself, and any other pair ends the string. A literal
denotes a text if it ends with its last two characters and nowhere opens a gap on the way there
(`denoted?`).

`escapeIndented` writes escapes that begin with a pair of quotes, so a quote in front of one of them
is taken for part of it. `indented_literal_denotes_iff` says for which texts that does not happen: no
line ends in a backslash, quotes stand in pairs in front of every dollar sign, and at the end of the
text they stand in pairs as well, or a single one is close enough to other text to be padded. -/
namespace SettingsHarvest.Nix

/-! ### Reading -/

/-- How the reading of an indented string ends. -/
inductive Ending where
  /-- At a closing pair of quotes, with what is behind it. -/
  | closed (rest : List Char)
  /-- At the opening of a gap. -/
  | gap
  /-- Not before the text does. -/
  | missing
  deriving DecidableEq

/-- The text that a reading comes by, and how it ends. -/
structure IndentedReading where
  text : List Char
  ending : Ending
  deriving DecidableEq

namespace IndentedReading

/-- A reading with text in front of it. -/
def behind (text : List Char) (r : IndentedReading) : IndentedReading := ⟨text ++ r.text, r.ending⟩

@[simp] theorem behind_nil (r : IndentedReading) : r.behind [] = r := rfl

@[simp] theorem behind_behind (s t : List Char) (r : IndentedReading) :
    (r.behind t).behind s = r.behind (s ++ t) := by
  simp [behind]

@[simp] theorem text_behind (s : List Char) (r : IndentedReading) : (r.behind s).text = s ++ r.text := rfl

end IndentedReading

/-- What stands for a character behind a pair of quotes and a backslash. -/
def unescaped (c : Char) : Char :=
  if c == 'n' then '\n' else if c == 'r' then '\r' else if c == 't' then '\t' else c

/-- Reads an indented string behind its opening pair of quotes. -/
def readIndented : List Char → IndentedReading
  | '\x27' :: '\x27' :: '\x27' :: rest => (readIndented rest).behind [quote, quote]
  | '\x27' :: '\x27' :: '$' :: rest => (readIndented rest).behind ['$']
  | '\x27' :: '\x27' :: '\\' :: c :: rest => (readIndented rest).behind [unescaped c]
  | '\x27' :: '\x27' :: rest => ⟨[], .closed rest⟩
  | '$' :: '\x7b' :: _ => ⟨[], .gap⟩
  | c :: rest => (readIndented rest).behind [c]
  | [] => ⟨[], .missing⟩

/-- The text that an indented literal denotes, if it ends where its closing pair of quotes is. -/
def denoted? : List Char → Option (List Char)
  | '\x27' :: '\x27' :: body => match readIndented body with
    | ⟨text, .closed []⟩ => some text
    | _ => none
  | _ => none

/-! ### Escaping in one pass -/

/-- A quote that no other one has been paired with, if there is one. -/
def loneQuote (lone : Bool) : List Char := if lone then [quote] else []

@[simp] theorem loneQuote_true : loneQuote true = [quote] := rfl

@[simp] theorem loneQuote_false : loneQuote false = [] := rfl

/-- All escapes of an indented string at once. Whether a quote is the second of a pair depends on the
quotes before it: `lone` tells whether one of them is left over. -/
def escapeFrom (lone : Bool) : List Char → List Char
  | [] => []
  | c :: rest =>
    if c = quote then loneQuote lone ++ quote :: escapeFrom (!lone) rest
    else if c = '$' ∨ (c = '\\' ∧ rest.head? = some '\n') then
      quote :: quote :: c :: escapeFrom false rest
    else c :: escapeFrom false rest

/-- Whether a quote is left over at the end of a text. -/
def endsLone (lone : Bool) : List Char → Bool
  | [] => lone
  | c :: rest => if c = quote then endsLone (!lone) rest else endsLone false rest

/-- Whether no escape has a left over quote in front of it, and no line ends in a backslash. -/
def unmerged (lone : Bool) : List Char → Bool
  | [] => true
  | c :: rest =>
    if c = quote then unmerged (!lone) rest
    else !(lone && c == '$') && !(c == '\\' && rest.head? == some '\n') && unmerged false rest

theorem unmerged_plain {lone : Bool} {c : Char} {rest : List Char} (hq : c ≠ quote) :
    unmerged lone (c :: rest) = true ↔ (c = '$' → lone = false) ∧
      ¬(c = '\\' ∧ rest.head? = some '\n') ∧ unmerged false rest = true := by
  simp only [unmerged, if_neg hq]
  grind

/-! ### One pass is enough -/

theorem escapeFrom_true {s : List Char} (h : s.head? ≠ some quote) :
    escapeFrom true s = escapeFrom false s := by
  cases s with
  | nil => rfl
  | cons c rest =>
    have hc : c ≠ quote := fun hc => h (by simp [hc])
    simp [escapeFrom, hc]

theorem escapeDollars_cons (c : Char) (rest : List Char) :
    escapeDollars (c :: rest) =
      (if c = '$' then [quote, quote, '$'] else [c]) ++ escapeDollars rest := by
  simp [escapeDollars]

theorem escapeLineEnds_cons {c : Char} {rest : List Char}
    (h : ¬(c = '\\' ∧ rest.head? = some '\n')) :
    escapeLineEnds (c :: rest) = c :: escapeLineEnds rest := by
  rw [escapeLineEnds]
  intro r hc hr
  exact h ⟨hc, by rw [hr]; rfl⟩

/-- A line break starts the text that was escaped where it starts the escaped one. -/
theorem head?_escapeDollars_tripleQuotes (s : List Char) :
    (escapeDollars (tripleQuotes s)).head? = some '\n' ↔ s.head? = some '\n' := by
  unfold tripleQuotes
  split
  · simp [escapeDollars, quote]
  · next c rest _ =>
    rw [escapeDollars_cons]
    split
    · next h => simp [h, quote]
    · simp
  · simp [escapeDollars]

theorem escapeIndented_eq (s : List Char) :
    escapeLineEnds (escapeDollars (tripleQuotes s)) = escapeFrom false s := by
  fun_induction tripleQuotes s with
  | case1 rest ih =>
    simp only [escapeDollars_cons, quote, Char.reduceEq, if_false, List.cons_append, List.nil_append]
    rw [escapeLineEnds_cons (by simp), escapeLineEnds_cons (by simp), escapeLineEnds_cons (by simp),
      ih]
    simp [escapeFrom, loneQuote, quote]
  | case2 c rest hc ih =>
    rw [escapeDollars_cons]
    by_cases hq : c = quote
    · have hrest : rest.head? ≠ some quote := by
        intro h
        obtain ⟨r, rfl⟩ := List.head?_eq_some_iff.1 h
        exact hc r hq rfl
      have hd : c ≠ '$' := by rw [hq]; decide
      rw [if_neg hd, List.singleton_append, escapeLineEnds_cons (by simp [hq, quote]), ih]
      simp [escapeFrom, loneQuote, hq, escapeFrom_true hrest]
    · by_cases hd : c = '$'
      · subst hd
        simp only [if_true, List.cons_append, List.nil_append]
        rw [escapeLineEnds_cons (by simp [quote]), escapeLineEnds_cons (by simp [quote]),
          escapeLineEnds_cons (by simp), ih]
        simp [escapeFrom, quote]
      · rw [if_neg hd, List.singleton_append]
        by_cases hl : c = '\\' ∧ rest.head? = some '\n'
        · obtain ⟨rfl, hn⟩ := hl
          obtain ⟨after, hafter⟩ :=
            List.head?_eq_some_iff.1 ((head?_escapeDollars_tripleQuotes rest).2 hn)
          rw [hafter, escapeLineEnds_cons (by simp)] at ih
          rw [hafter, escapeLineEnds, ih]
          simp [escapeFrom, hn, quote]
        · rw [escapeLineEnds_cons (by rwa [head?_escapeDollars_tripleQuotes]), ih]
          simp [escapeFrom, hq, hd, hl]
  | case3 => rfl

/-! ### Reading what was escaped -/

theorem readIndented_cons {c : Char} (hq : c ≠ quote) (hd : c ≠ '$') (rest : List Char) :
    readIndented (c :: rest) = (readIndented rest).behind [c] := by
  rw [readIndented]
  all_goals intros; contradiction

theorem readIndented_quote {c : Char} (h : c ≠ quote) (rest : List Char) :
    readIndented (quote :: c :: rest) = (readIndented (c :: rest)).behind [quote] := by
  rw [quote, readIndented]
  all_goals simp [quote] at h ⊢
  all_goals first | assumption | (intros; contradiction)

/-- A character that nothing is made of stands for itself, behind a quote as well. -/
theorem readIndented_plain (lone : Bool) {c : Char} (hq : c ≠ quote) (hd : c ≠ '$')
    (rest : List Char) :
    readIndented (loneQuote lone ++ c :: rest) = (readIndented rest).behind (loneQuote lone ++ [c]) := by
  cases lone with
  | false => exact readIndented_cons hq hd rest
  | true =>
    simp only [loneQuote_true, List.singleton_append]
    rw [readIndented_quote hq, readIndented_cons hq hd, IndentedReading.behind_behind]
    rfl

theorem readIndented_triple (rest : List Char) :
    readIndented (quote :: quote :: quote :: rest) = (readIndented rest).behind [quote, quote] := rfl

theorem readIndented_dollar (rest : List Char) :
    readIndented (quote :: quote :: '$' :: rest) = (readIndented rest).behind ['$'] := rfl

theorem escapeFrom_quote (lone : Bool) (rest : List Char) :
    escapeFrom lone (quote :: rest) = loneQuote lone ++ quote :: escapeFrom (!lone) rest := by
  simp [escapeFrom]

theorem escapeFrom_dollar (lone : Bool) (rest : List Char) :
    escapeFrom lone ('$' :: rest) = quote :: quote :: '$' :: escapeFrom false rest := by
  simp [escapeFrom, quote]

theorem escapeFrom_plain (lone : Bool) {c : Char} {rest : List Char} (hq : c ≠ quote) (hd : c ≠ '$')
    (hl : ¬(c = '\\' ∧ rest.head? = some '\n')) :
    escapeFrom lone (c :: rest) = c :: escapeFrom false rest := by
  simp [escapeFrom, hq, hd, hl]

/-- Where no escape runs into a quote, the text is read back, up to a quote that is left over at its
end: that one is read together with what follows. -/
theorem readIndented_escapeFrom (lone : Bool) (s tail : List Char) (h : unmerged lone s = true) :
    ∃ shown, loneQuote lone ++ s = shown ++ loneQuote (endsLone lone s) ∧
      readIndented (loneQuote lone ++ (escapeFrom lone s ++ tail)) =
        (readIndented (loneQuote (endsLone lone s) ++ tail)).behind shown := by
  induction s generalizing lone with
  | nil => exact ⟨[], by simp [endsLone], by simp [escapeFrom, endsLone]⟩
  | cons c rest ih =>
    by_cases hq : c = quote
    · subst hq
      simp only [unmerged, if_true] at h
      obtain ⟨shown, hshown, hread⟩ := ih (!lone) h
      rw [escapeFrom_quote]
      cases lone with
      | false => exact ⟨shown, hshown, hread⟩
      | true =>
        refine ⟨quote :: quote :: shown, congrArg (quote :: quote :: ·) hshown, ?_⟩
        show readIndented (quote :: quote :: quote :: (escapeFrom false rest ++ tail)) = _
        rw [readIndented_triple]
        exact congrArg (IndentedReading.behind [quote, quote]) hread
    · obtain ⟨hdollar, hl, hrest⟩ := (unmerged_plain hq).1 h
      obtain ⟨shown, hshown, hread⟩ := ih false hrest
      have hends : endsLone lone (c :: rest) = endsLone false rest := by simp [endsLone, hq]
      rw [hends]
      simp only [loneQuote_false, List.nil_append] at hread hshown
      refine ⟨loneQuote lone ++ c :: shown, by rw [List.append_assoc, List.cons_append, ← hshown], ?_⟩
      by_cases hd : c = '$'
      · subst hd
        obtain rfl : lone = false := hdollar rfl
        rw [escapeFrom_dollar]
        show readIndented (quote :: quote :: '$' :: (escapeFrom false rest ++ tail)) = _
        rw [readIndented_dollar, hread]
        simp
      · rw [escapeFrom_plain lone hq hd hl, List.cons_append, readIndented_plain lone hq hd, hread]
        simp

/-- Where an escape runs into a quote, or a line ends in a backslash, something else is read. -/
theorem readIndented_merged (lone : Bool) (s tail : List Char) (h : unmerged lone s = false) :
    ¬(loneQuote lone ++ s <+: (readIndented (loneQuote lone ++ (escapeFrom lone s ++ tail))).text) := by
  induction s generalizing lone with
  | nil => simp [unmerged] at h
  | cons c rest ih =>
    by_cases hq : c = quote
    · subst hq
      simp only [unmerged, if_true] at h
      rw [escapeFrom_quote]
      cases lone with
      | false => exact ih true h
      | true =>
        show ¬(quote :: quote :: rest <+:
          (readIndented (quote :: quote :: quote :: (escapeFrom false rest ++ tail))).text)
        rw [readIndented_triple]
        simpa using ih false h
    · simp only [unmerged, if_neg hq] at h
      by_cases hl : c = '\\' ∧ rest.head? = some '\n'
      · obtain ⟨rfl, hn⟩ := hl
        obtain ⟨after, rfl⟩ := List.head?_eq_some_iff.1 hn
        have hescape : escapeFrom lone ('\\' :: '\n' :: after) =
            quote :: quote :: '\\' :: '\n' :: escapeFrom false after := by
          simp [escapeFrom, quote]
        rw [hescape]
        cases lone with
        | false => simp [readIndented, quote, unescaped]
        | true => simp [readIndented, quote]
      · by_cases hd : c = '$'
        · subst hd
          rw [escapeFrom_dollar]
          cases lone with
          | false =>
            show ¬('$' :: rest <+:
              (readIndented (quote :: quote :: '$' :: (escapeFrom false rest ++ tail))).text)
            rw [readIndented_dollar]
            simpa using ih false (by simpa using h)
          | true =>
            show ¬(quote :: '$' :: rest <+:
              (readIndented (quote :: quote :: quote :: '$' :: (escapeFrom false rest ++ tail))).text)
            simp [readIndented, quote]
        · have hrest : unmerged false rest = false := by
            have hend : (c == '\\' && rest.head? == some '\n') = false :=
              Bool.eq_false_iff.2 fun hc => hl (by simpa using hc)
            rw [hend] at h
            simpa [hd] using h
          rw [escapeFrom_plain lone hq hd hl, List.cons_append, readIndented_plain lone hq hd]
          simpa using ih false hrest

/-! ### Texts that survive -/

/-- How many quotes a text ends in. -/
def quotesAtEnd (s : List Char) : Nat := (s.reverse.takeWhile (· == quote)).length

/-- Texts whose indented literal can be read back. -/
structure Survives (s : List Char) : Prop where
  /-- No line ends in a backslash. -/
  lineEnds : ¬['\\', '\n'] <:+: s
  /-- In front of a dollar sign quotes stand in pairs. -/
  dollars : ∀ before, before ++ ['$'] <+: s → quotesAtEnd before % 2 = 0
  /-- At the end they stand in pairs too, or there is a single one that gets padded. -/
  ending : quotesAtEnd s % 2 = 0 ∨ endsInQuote s = true

/-- Whether quotes are left over at the end of a text once they are paired. -/
def leftOver (s : List Char) : Bool := quotesAtEnd s % 2 == 1

theorem leftOver_eq_false {s : List Char} : leftOver s = false ↔ quotesAtEnd s % 2 = 0 := by
  simp only [leftOver, beq_eq_false_iff_ne]
  omega

theorem leftOver_snoc (s : List Char) (c : Char) :
    leftOver (s ++ [c]) = if c = quote then !leftOver s else false := by
  by_cases hq : c = quote
  · have hsucc : quotesAtEnd (s ++ [c]) = quotesAtEnd s + 1 := by simp [quotesAtEnd, hq]
    rw [if_pos hq, leftOver, leftOver, hsucc]
    rcases Nat.mod_two_eq_zero_or_one (quotesAtEnd s) with h | h <;> simp [Nat.add_mod, h]
  · have hzero : quotesAtEnd (s ++ [c]) = 0 := by simp [quotesAtEnd, hq]
    rw [if_neg hq, leftOver, hzero]
    rfl

theorem endsLone_leftOver (before rest : List Char) :
    endsLone (leftOver before) rest = leftOver (before ++ rest) := by
  induction rest generalizing before with
  | nil => simp [endsLone]
  | cons c rest ih =>
    have h := ih (before ++ [c])
    rw [leftOver_snoc] at h
    by_cases hq : c = quote <;> simpa [endsLone, hq] using h

theorem unmerged_leftOver (before rest : List Char) :
    unmerged (leftOver before) rest = true ↔ ¬['\\', '\n'] <:+: rest ∧
      ∀ p, p ++ ['$'] <+: rest → leftOver (before ++ p) = false := by
  induction rest generalizing before with
  | nil => simp [unmerged]
  | cons c rest ih =>
    have hline : ¬['\\', '\n'] <:+: c :: rest ↔
        ¬(c = '\\' ∧ rest.head? = some '\n') ∧ ¬['\\', '\n'] <:+: rest := by
      have hprefix : ['\\', '\n'] <+: c :: rest ↔ c = '\\' ∧ rest.head? = some '\n' := by
        rw [List.cons_prefix_cons, eq_comm, List.head?_eq_some_iff]
        exact and_congr Iff.rfl ⟨fun ⟨r, hr⟩ => ⟨r, hr.symm⟩, fun ⟨r, hr⟩ => ⟨r, hr.symm⟩⟩
      rw [List.infix_cons_iff, not_or, hprefix]
    have hdollar : (∀ p, p ++ ['$'] <+: c :: rest → leftOver (before ++ p) = false) ↔
        (c = '$' → leftOver before = false) ∧
          ∀ p, p ++ ['$'] <+: rest → leftOver (before ++ [c] ++ p) = false := by
      constructor
      · intro h
        refine ⟨fun hc => by simpa using h [] (by simp [hc]), fun p hp => ?_⟩
        simpa using h (c :: p) (by simpa using hp)
      · rintro ⟨hc, h⟩ p hp
        cases p with
        | nil =>
          rw [List.append_nil]
          exact hc (by simpa [eq_comm] using hp)
        | cons d p =>
          rw [List.cons_append, List.cons_prefix_cons] at hp
          obtain ⟨rfl, hp⟩ := hp
          simpa using h p hp
    have h := ih (before ++ [c])
    rw [leftOver_snoc] at h
    rw [hline, hdollar]
    by_cases hq : c = quote
    · rw [if_pos hq] at h
      simp only [unmerged, if_pos hq, h]
      have hne : c ≠ '$' := by rw [hq]; decide
      have hne' : c ≠ '\\' := by rw [hq]; decide
      simp [hne, hne']
    · rw [if_neg hq] at h
      rw [unmerged_plain hq, h]
      constructor
      · rintro ⟨hd, hl, hline, hdollar⟩
        exact ⟨⟨hl, hline⟩, hd, hdollar⟩
      · rintro ⟨⟨hl, hline⟩, hd, hdollar⟩
        exact ⟨hd, hl, hline, hdollar⟩

/-! ### Padding -/

theorem endsLone_append (lone : Bool) (s t : List Char) :
    endsLone lone (s ++ t) = endsLone (endsLone lone s) t := by
  induction s generalizing lone with
  | nil => rfl
  | cons c rest ih => by_cases hq : c = quote <;> simp [endsLone, hq, ih]

/-- A quote behind a text is escaped on its own. -/
theorem escapeFrom_snoc_quote (lone : Bool) (s : List Char) :
    escapeFrom lone (s ++ [quote]) = escapeFrom lone s ++ escapeFrom (endsLone lone s) [quote] := by
  induction s generalizing lone with
  | nil => rfl
  | cons c rest ih =>
    have hhead : (rest ++ [quote]).head? = some '\n' ↔ rest.head? = some '\n' := by
      cases rest <;> simp [quote]
    by_cases hq : c = quote
    · simp [escapeFrom, endsLone, hq, ih]
    · simp only [List.cons_append, escapeFrom, endsLone, hq, if_false, hhead, ih]
      split <;> rfl

/-- Escapes stand in front of characters, so a text ends as it did. -/
theorem getLast?_escapeFrom (lone : Bool) (s : List Char) :
    (escapeFrom lone s).getLast? = s.getLast? := by
  induction s generalizing lone with
  | nil => rfl
  | cons c rest ih =>
    have hlast (lone' : Bool) (front : List Char) :
        (front ++ c :: escapeFrom lone' rest).getLast? = (c :: rest).getLast? := by
      rw [List.getLast?_append, List.getLast?_cons, List.getLast?_cons, ih]
      rfl
    simp only [escapeFrom]
    split
    · next hq => rw [hq] at hlast ⊢; exact hlast _ _
    · split
      · exact hlast false [quote, quote]
      · exact hlast false []

/-- Whether a quote behind a text is padded hangs on the last character of the text alone. -/
theorem endsInQuote_snoc_quote (s : List Char) :
    endsInQuote (s ++ [quote]) =
      match s.getLast? with
      | none => true
      | some c => c != quote && !Text.isSpace c := by
  rw [endsInQuote, List.reverse_append, List.getLast?_eq_head?_reverse]
  cases s.reverse <;> rfl

theorem endsInQuote_escapeFrom {s : List Char} (h : endsLone false s = false) :
    endsInQuote (escapeFrom false (s ++ [quote])) = endsInQuote (s ++ [quote]) := by
  rw [escapeFrom_snoc_quote, h]
  show endsInQuote (escapeFrom false s ++ [quote]) = _
  rw [endsInQuote_snoc_quote, endsInQuote_snoc_quote, getLast?_escapeFrom]

/-! ### What indented literals denote -/

/-- What stands behind an escaped text: a space if it is padded, and the closing pair of quotes. -/
def closing (padded : Bool) : List Char := (if padded then [' '] else []) ++ [quote, quote]

theorem indented_literal (s : List Char) :
    stringLiteral true s =
      quote :: quote :: (escapeFrom false s ++ closing (endsInQuote (escapeFrom false s))) := by
  simp only [stringLiteral, escapeIndented, escapeIndented_eq, Bool.true_or, if_true, closing]
  split <;> simp

/-- A literal denotes what is read behind its opening pair of quotes up to the end. -/
theorem denoted?_quotes {body text : List Char} :
    denoted? (quote :: quote :: body) = some text ↔ readIndented body = ⟨text, .closed []⟩ := by
  show (match readIndented body with | ⟨text, .closed []⟩ => some text | _ => none) = some text ↔ _
  split
  · next h => simp [h]
  · next h =>
    simp only [reduceCtorEq, false_iff]
    exact fun hr => h text hr

theorem denoted?_merged {s text : List Char} (h : unmerged false s = false)
    (hd : denoted? (stringLiteral true s) = some text) : ¬s <+: text := by
  rw [indented_literal, denoted?_quotes] at hd
  have hread := readIndented_merged false s (closing (endsInQuote (escapeFrom false s))) h
  rwa [loneQuote_false, List.nil_append, List.nil_append, hd] at hread

/-- With all its quotes paired, a text is denoted as it is, and padded at most. -/
theorem denoted?_paired {s : List Char} (h : unmerged false s = true)
    (he : endsLone false s = false) :
    denoted? (stringLiteral true s) = some s ∨ denoted? (stringLiteral true s) = some (s ++ [' ']) := by
  rw [indented_literal, denoted?_quotes, denoted?_quotes]
  generalize endsInQuote (escapeFrom false s) = padded
  obtain ⟨shown, hshown, hread⟩ := readIndented_escapeFrom false s (closing padded) h
  simp only [he, loneQuote_false, List.nil_append, List.append_nil] at hshown hread
  subst hshown
  rw [hread]
  cases padded with
  | true => exact Or.inr rfl
  | false => exact Or.inl (by simp [IndentedReading.behind, closing, readIndented, quote])

/-- A quote left over at the end is denoted where it is padded; without a space behind it, it takes
the closing pair to itself. -/
theorem denoted?_lone {s : List Char} (h : unmerged false s = true) (he : endsLone false s = true) :
    denoted? (stringLiteral true s) = if endsInQuote s then some (s ++ [' ']) else none := by
  obtain ⟨shown, hshown, hread⟩ := readIndented_escapeFrom false s (closing (endsInQuote s)) h
  simp only [he, loneQuote_false, loneQuote_true, List.nil_append] at hshown hread
  have hends : endsInQuote (escapeFrom false s) = endsInQuote s := by
    rw [hshown]
    apply endsInQuote_escapeFrom
    rw [hshown, endsLone_append] at he
    simpa [endsLone] using he
  rw [indented_literal, hends]
  cases hp : endsInQuote s with
  | true =>
    rw [hp] at hread
    rw [if_pos rfl, denoted?_quotes, hread, hshown]
    simp [IndentedReading.behind, closing, readIndented, quote]
  | false =>
    rw [hp] at hread
    show (match readIndented _ with | ⟨text, .closed []⟩ => some text | _ => none) = none
    rw [hread]
    rfl

/-- **Texts that can be read back.** The indented literal of a text ends at its last two quotes, opens
no gap and denotes the text, or the text and one space, exactly when the text survives. -/
theorem indented_literal_denotes_iff (s : String) :
    (denoted? (stringText true s).toList = some s.toList ∨
      denoted? (stringText true s).toList = some (s.toList ++ [' '])) ↔ Survives s.toList := by
  rw [stringText, String.toList_ofList]
  generalize s.toList = s
  have hmerged := unmerged_leftOver [] s
  have hlone : endsLone false s = leftOver s := endsLone_leftOver [] s
  simp only [List.nil_append, leftOver_eq_false] at hmerged
  change unmerged false s = true ↔ _ at hmerged
  cases h : unmerged false s with
  | false =>
    have hnot : ¬Survives s := fun hs => by simpa [h] using hmerged.2 ⟨hs.lineEnds, hs.dollars⟩
    refine iff_of_false ?_ hnot
    rintro (hd | hd)
    · exact denoted?_merged h hd (List.prefix_refl s)
    · exact denoted?_merged h hd (List.prefix_append s [' '])
  | true =>
    obtain ⟨hline, hdollar⟩ := hmerged.1 h
    cases he : endsLone false s with
    | false =>
      have hpaired : quotesAtEnd s % 2 = 0 := leftOver_eq_false.1 (hlone ▸ he)
      exact iff_of_true (denoted?_paired h he) ⟨hline, hdollar, Or.inl hpaired⟩
    | true =>
      have hodd : quotesAtEnd s % 2 ≠ 0 := fun hpaired => by
        simp [hlone, leftOver_eq_false.2 hpaired] at he
      rw [denoted?_lone h he]
      cases hp : endsInQuote s with
      | true => exact iff_of_true (Or.inr rfl) ⟨hline, hdollar, Or.inr hp⟩
      | false =>
        refine iff_of_false (by simp) fun hs => ?_
        rcases hs.ending with hpaired | hpadded
        · exact hodd hpaired
        · simp [hp] at hpadded

/-- A quote in front of a gap that was meant as text: the gap opens. -/
theorem quote_before_dollar_opens_gap :
    (readIndented ((stringText true "'$\x7bx\x7d").toList.drop 2)).ending = .gap ∧
      ¬(denoted? (stringText true "'$\x7bx\x7d").toList = some "'$\x7bx\x7d".toList ∨
        denoted? (stringText true "'$\x7bx\x7d").toList = some ("'$\x7bx\x7d".toList ++ [' '])) := by
  decide

end SettingsHarvest.Nix
