import SettingsHarvest.Evaluation
import SettingsHarvest.Proofs.Attempt
import SettingsHarvest.Proofs.Faults
import SettingsHarvest.Proofs.Rounding

/-! Numbers that every operator answers.

Some operators have no answer for an infinite number, or for what is no number at all. Evaluation never
hands them one: a floating-point result that is not finite is a failure (`finiteResult`), numerals and
the members of enumerations come to finite numbers, and on those the operators either answer or
overflow. -/
namespace SettingsHarvest

namespace Value

/-- A floating-point number, if it is one, is well-formed. -/
def WellFormed : Value → Prop
  | decimal x => x.WellFormed
  | _ => True

/-- A floating-point number, if it is one, is well-formed and finite. -/
def Finite : Value → Prop
  | decimal x => x.WellFormed ∧ x.isFinite = true
  | _ => True

variable {a b v : Value} {x : Binary64} {F : Fault → Prop}

theorem Finite.wellFormed (h : v.Finite) : v.WellFormed := by
  cases v with
  | decimal x => exact h.1
  | null | truth | integer | text | list | record => trivial

/-! ### Operands -/

theorem wellFormed_normalize (h : x.WellFormed) : (decimal x).normalize.WellFormed := by
  simp only [normalize]
  split
  · split
    · trivial
    · exact h
  · exact h

theorem finite_normalize (h : x.WellFormed) (hx : x.isFinite = true) :
    (decimal x).normalize.Finite := by
  simp only [normalize]
  split
  · split
    · trivial
    · exact ⟨h, hx⟩
  · exact ⟨h, hx⟩

/-- In floating point a finite number stays finite, if it can be held at all. -/
theorem Finite.asDecimal (h : a.Finite) (hx : a.asDecimal? = some x) :
    x.WellFormed ∧ x.isFinite = true := by
  cases a with
  | integer n =>
    unfold asDecimal? at hx
    dsimp only at hx
    split at hx
    · next hfinite =>
      cases hx
      exact ⟨Binary64.wellFormed_ofInt, hfinite⟩
    · cases hx
  | decimal y =>
    cases hx
    exact h
  | null | truth | text | list | record => cases hx

/-- A finite number has an integer part. -/
theorem Finite.asWhole (h : a.Finite) (hnumber : a.isNumber = true) : ∃ n, a.asWhole? = .ok (some n) := by
  cases a with
  | integer n => exact ⟨n, rfl⟩
  | decimal x =>
    cases x with
    | finite => exact ⟨_, rfl⟩
    | infinite | nan => cases h.2
  | null | truth | text | list | record => cases hnumber

theorem Finite.successor (h : a.Finite) (hv : a.successor = some v) : v.Finite := by
  cases a with
  | integer n =>
    cases hv
    trivial
  | decimal x =>
    cases hv
    exact ⟨Binary64.wellFormed_add, Binary64.isFinite_add_one h.1 h.2⟩
  | null | truth | text | list | record => cases hv

/-! ### Results -/

/-- A well-formed value, or none. -/
def FoundWellFormed (found : Option Value) : Prop := ∀ v ∈ found, v.WellFormed

theorem wellFormed_combine {exact : Int → Int → Int} {rounded : Binary64 → Binary64 → Binary64}
    (hrounded : ∀ x y, (rounded x y).WellFormed) : FoundWellFormed (combine exact rounded a b) := by
  unfold combine
  split
  · rintro _ ⟨⟩
    trivial
  · split
    · rintro _ ⟨⟩
      exact hrounded _ _
    · nofun

theorem wellFormed_quotient : FoundWellFormed (quotient a b) := by
  unfold quotient
  split
  · dsimp only
    split
    · rintro _ ⟨⟩
      exact Binary64.wellFormed_ofRatio
    · nofun
  · split
    · rintro _ ⟨⟩
      exact Binary64.wellFormed_div
    · nofun

theorem ends_remainder (ha : a.Finite) : Ends F FoundWellFormed (remainder a b) := by
  unfold remainder
  split
  · next hx _ => cases (ha.asDecimal hx).2
  · next hx _ => cases (ha.asDecimal hx).2
  · next hx _ =>
    refine .ok ?_
    rintro _ ⟨⟩
    exact (ha.asDecimal hx).1.remainder
  · exact .ok nofun

theorem ends_onWords {f : Int → Int → Int} (ha : a.Finite) (hb : b.Finite) (hna : a.isNumber = true)
    (hnb : b.isNumber = true) : Ends F FoundWellFormed (onWords f a b) := by
  obtain ⟨m, hm⟩ := ha.asWhole hna
  obtain ⟨n, hn⟩ := hb.asWhole hnb
  rw [onWords, hm]
  dsimp only [bind, Except.bind]
  rw [hn]
  refine .ok ?_
  rintro _ ⟨⟩
  trivial

end Value
open Value

/-! ### Operators -/

variable {F : Fault → Prop} {a b v : Value}

/-- A binary operator answers finite numbers, or overflows. -/
theorem BinaryOperator.ends_apply (o : BinaryOperator) (ha : a.Finite) (hb : b.Finite)
    (hna : a.isNumber = true) (hnb : b.isNumber = true) : Ends F FoundWellFormed (o.apply a b) := by
  cases o with
  | plus => exact .ok (wellFormed_combine fun _ _ => Binary64.wellFormed_add)
  | minus => exact .ok (wellFormed_combine fun _ _ => Binary64.wellFormed_add)
  | times => exact .ok (wellFormed_combine fun _ _ => Binary64.wellFormed_mul)
  | dividedBy => exact .ok wellFormed_quotient
  | remainder => exact ends_remainder ha
  | or | and | xor | shiftLeft | shiftRight | shiftRightUnsigned =>
    exact ends_onWords ha hb hna hnb

/-- A unary operator answers a finite number. -/
theorem UnaryOperator.ends_apply (o : UnaryOperator) (ha : a.Finite) (hna : a.isNumber = true) :
    Ends F Value.WellFormed (o.apply a) := by
  unfold UnaryOperator.apply
  split
  · exact .ok trivial
  · exact .ok ha.1.neg
  · obtain ⟨n, hn⟩ := ha.asWhole hna
    rw [hn]
    exact .ok trivial
  · exact .ok ha.wellFormed

/-! ### Numerals -/

namespace Numeral

theorem wellFormed_magnitude {negative : Bool} {cs : List Char} {x : Binary64}
    (h : magnitude? negative cs = some x) : x.WellFormed := by
  unfold magnitude? at h
  dsimp only at h
  split at h
  · cases h
    trivial
  · split at h
    · cases h
      trivial
    · split at h
      · cases h
        exact Binary64.wellFormed_ofDecimal
      · cases h

theorem wellFormed_readDecimal {text : String} {x : Binary64} (h : readDecimal? text = some x) :
    x.WellFormed := by
  unfold readDecimal? at h
  exact wellFormed_magnitude h

theorem wellFormed_parse {text : String} (h : parse text = .ok v) : v.WellFormed := by
  have hmap {x : Except Fault Int} (hx : x.map Value.integer = .ok v) : v.WellFormed := by
    cases x with
    | error f => cases hx
    | ok n =>
      cases hx
      trivial
  simp only [parse] at h
  split at h
  · exact hmap h
  · split at h
    · exact hmap h
    · split at h
      · exact hmap h
      · split at h
        · exact hmap h
        · split at h
          · next hread =>
            cases h
            exact wellFormed_normalize (wellFormed_readDecimal hread)
          · cases h

end Numeral

/-! ### Outcomes -/

/-- A finite value, or a failure. -/
def FiniteOutcome (o : Outcome Value) : Prop := ∀ v, o = .ok v → v.Finite

theorem FiniteOutcome.ok (h : v.Finite) : FiniteOutcome (.ok v) := by
  rintro _ ⟨⟩
  exact h

theorem FiniteOutcome.error {f : Failure} : FiniteOutcome (.error f) := by
  rintro _ ⟨⟩

theorem ends_value (h : v.Finite) : Ends F FiniteOutcome (Evaluation.value v) := .ok (.ok h)

theorem ends_fail {f : Failure} : Ends F FiniteOutcome (Evaluation.fail f) := .ok .error

/-- Only finite numbers come out as results. -/
theorem ends_finiteResult {text : String} (h : v.WellFormed) :
    Ends F FiniteOutcome (finiteResult text v) := by
  cases v with
  | decimal x =>
    unfold finiteResult
    dsimp only
    split
    · next hfinite => exact ends_value (finite_normalize h hfinite)
    · exact ends_fail
  | null | truth | integer | text | list | record => exact ends_value trivial

theorem ends_numeralValue {s : Syntax.Site} : Ends F FiniteOutcome (numeralValue s) := by
  unfold numeralValue
  split
  · next hparse => exact ends_finiteResult (Numeral.wellFormed_parse hparse)
  · exact ends_fail

theorem FiniteOutcome.numberOf {o : Outcome Value} (h : FiniteOutcome o) (hv : numberOf? o = some v) :
    v.Finite ∧ v.isNumber = true := by
  unfold numberOf? at hv
  split at hv
  · split at hv
    · next hnumber =>
      cases hv
      exact ⟨h _ rfl, hnumber⟩
    · cases hv
  · cases hv

end SettingsHarvest
