import SettingsHarvest.Proofs.Nix.IndentedString

/-! What strings between double quotes denote.

`readQuoted` reads a text as the Nix language does behind an opening double quote: a backslash takes the
character behind it along, and where no backslash stands in front, a quote ends the string and a dollar
sign with a brace opens a gap. `escape` puts a backslash in front of nothing but backslashes, quotes and
openings of gaps, so what it writes is read as the text it was given, up to whatever stands behind it
(`readQuoted_escape_append`), and two texts are never written alike (`escape_read_back`). -/
namespace SettingsHarvest.Nix

/-! ### Reading -/

/-- How the reading of a string between double quotes ends. -/
inductive QuotedEnding where
  /-- At a quote that is not escaped, with what is behind it. -/
  | closed (rest : List Char)
  /-- At the opening of a gap. -/
  | gap
  /-- Inside an escape, behind its backslash. -/
  | cut
  /-- Nowhere in the text. -/
  | missing
  deriving DecidableEq

/-- The text that a reading comes by, and how it ends. -/
structure QuotedReading where
  text : List Char
  ending : QuotedEnding
  deriving DecidableEq

namespace QuotedReading

/-- A reading with text in front of it. -/
def behind (text : List Char) (r : QuotedReading) : QuotedReading := ⟨text ++ r.text, r.ending⟩

@[simp] theorem behind_nil (r : QuotedReading) : r.behind [] = r := rfl

@[simp] theorem behind_behind (s t : List Char) (r : QuotedReading) :
    (r.behind t).behind s = r.behind (s ++ t) := by
  simp [behind]

end QuotedReading

/-- Reads a string behind its opening double quote. Carriage returns are taken as they are. -/
def readQuoted : List Char → QuotedReading
  | [] => ⟨[], .missing⟩
  | ['\\'] => ⟨[], .cut⟩
  | '\\' :: c :: rest => (readQuoted rest).behind [unescaped c]
  | '"' :: rest => ⟨[], .closed rest⟩
  | '$' :: '\x7b' :: _ => ⟨[], .gap⟩
  | c :: rest => (readQuoted rest).behind [c]

theorem readQuoted_backslash (c : Char) (rest : List Char) :
    readQuoted ('\\' :: c :: rest) = (readQuoted rest).behind [unescaped c] := by
  rw [readQuoted]

/-- A character that nothing is made of stands for itself. -/
theorem readQuoted_plain {c : Char} {rest : List Char} (hescape : c ≠ '\\') (hquote : c ≠ '"')
    (hgap : c = '$' → rest.head? ≠ some '\x7b') :
    readQuoted (c :: rest) = (readQuoted rest).behind [c] := by
  rw [readQuoted]
  case x_1 => exact fun h _ => hescape h
  case x_2 => exact fun _ _ h _ => hescape h
  case x_3 => exact hquote
  case x_4 =>
    rintro after rfl rfl
    exact hgap rfl rfl

/-- What is behind a closing quote is shorter than what was read. -/
theorem length_of_closed {s rest : List Char} (h : (readQuoted s).ending = .closed rest) :
    rest.length < s.length := by
  fun_induction readQuoted s with
  | case1 => cases h
  | case2 => cases h
  | case3 c after ih =>
    have := ih h
    simp only [List.length_cons]
    omega
  | case4 after =>
    cases h
    simp
  | case5 => cases h
  | case6 c after _ _ _ _ ih =>
    have := ih h
    simp only [List.length_cons]
    omega

/-! ### Reading what was escaped -/

/-- A brace starts an escaped text exactly where it starts the text. -/
theorem head?_escape_brace (s : List Char) :
    (escape s).head? = some '\x7b' ↔ s.head? = some '\x7b' := by
  unfold escape
  split
  · exact Iff.rfl
  · simp
  · next c rest _ =>
    split
    · next hc =>
      have hne : c ≠ '\x7b' := by
        rintro rfl
        exact absurd hc (by decide)
      simp [hne]
    · simp

/-- Escaped text is read as the text it is made of, unless a brace behind it could make a gap of a dollar
sign at its end. -/
theorem readQuoted_escape_append (s : List Char) {tail : List Char} (h : tail.head? ≠ some '\x7b') :
    readQuoted (escape s ++ tail) = (readQuoted tail).behind s := by
  fun_induction escape s with
  | case1 => rfl
  | case2 rest ih =>
    have hdollar : unescaped '$' = '$' := by decide
    simp only [List.cons_append]
    rw [readQuoted_backslash, readQuoted_plain (by decide) (by decide) (by simp), ih, hdollar,
      QuotedReading.behind_behind, QuotedReading.behind_behind]
    rfl
  | case3 c rest _ hc ih =>
    have hself : unescaped c = c := by
      rcases Bool.or_eq_true_iff.1 hc with hc | hc
      · rw [eq_of_beq hc]
        decide
      · rw [eq_of_beq hc]
        decide
    simp only [List.cons_append]
    rw [readQuoted_backslash, ih, hself, QuotedReading.behind_behind]
    rfl
  | case4 c rest hpair hc ih =>
    simp only [Bool.or_eq_true, beq_iff_eq, not_or] at hc
    have hgap : c = '$' → (escape rest ++ tail).head? ≠ some '\x7b' := by
      intro hdollar hbrace
      rw [List.head?_append] at hbrace
      rcases Option.or_eq_some_iff.1 hbrace with hrest | ⟨-, htail⟩
      · obtain ⟨after, rfl⟩ := List.head?_eq_some_iff.1 ((head?_escape_brace rest).1 hrest)
        exact hpair after hdollar rfl
      · exact h htail
    rw [List.cons_append, readQuoted_plain hc.1 hc.2 hgap, ih, QuotedReading.behind_behind]
    rfl

/-- A string between double quotes is read up to its closing quote. -/
theorem readQuoted_escape_closed (s rest : List Char) :
    readQuoted (escape s ++ '"' :: rest) = ⟨s, .closed rest⟩ := by
  rw [readQuoted_escape_append s (by simp)]
  simp [readQuoted, QuotedReading.behind]

/-- **Escaping is undone by reading.** An escaped text is read to its end as the text it was made of,
without a quote that would end the string, the opening of a gap or half an escape at the end; a closing
quote behind it is the one that ends the string. So different texts are written differently. -/
theorem escape_read_back :
    (∀ s, readQuoted (escape s) = ⟨s, .missing⟩) ∧
      (∀ s rest, readQuoted (escape s ++ '"' :: rest) = ⟨s, .closed rest⟩) ∧
      Function.Injective escape := by
  have hread (s : List Char) : readQuoted (escape s) = ⟨s, .missing⟩ := by
    have hend : readQuoted (escape s ++ []) = (readQuoted []).behind s :=
      readQuoted_escape_append s (by simp)
    rw [List.append_nil] at hend
    rw [hend]
    simp [readQuoted, QuotedReading.behind]
  refine ⟨hread, readQuoted_escape_closed, fun s t heq => ?_⟩
  have htext := congrArg (fun written => (readQuoted written).text) heq
  simpa only [hread] using htext

end SettingsHarvest.Nix
