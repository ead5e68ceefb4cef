import Mathlib.Algebra.Group.Int.Defs
import Mathlib.Algebra.Group.Nat.Defs
import SettingsHarvest.Evaluation
import SettingsHarvest.Proofs.Leaves
import SettingsHarvest.Syntax.Program

/-! What bit operators answer.

An integer stands for a word of 32 bits, the integer modulo 2^32 (`bits`), whatever its size and sign.
Every bit operator answers what the operation of the same name on bit vectors makes of those words,
read with a sign except for the unsigned shift, and shifts count modulo 32 (`BitOperator.answer`). One
lemma for each operator says so (`or_eq` to `not_eq`), by the bits of signed words (`bitwiseOr_toInt` and
its companions); `bit_operators_exact` is what evaluation comes to. -/
namespace SettingsHarvest.Word

/-! ### Words and bits -/

/-- The 32 bits that an integer stands for. -/
def bits (n : Int) : BitVec 32 := BitVec.ofInt 32 n

theorem bits_congr {m n : Int} (h : m % 2 ^ 32 = n % 2 ^ 32) : bits m = bits n := by
  apply BitVec.eq_of_toNat_eq
  simp only [bits, BitVec.toNat_ofInt]
  omega

theorem ofInt_eq (n : Int) : ofInt n = (bits n).toNat := by
  simp [ofInt, bits, BitVec.toNat_ofInt]

/-- The sign of a word is its highest bit. -/
theorem signed_toNat (x : BitVec 32) : signed x.toNat = x.toInt := by
  simp only [signed, BitVec.toInt_eq_toNat_cond]
  have := x.isLt
  split <;> split <;> omega

theorem signedOf_eq (n : Int) : signedOf n = (bits n).toInt := by
  rw [signedOf, ofInt_eq, signed_toNat]

theorem shiftCount_eq (n : Int) : shiftCount n = (n % 32).toNat := by
  simp only [shiftCount, ofInt]
  omega

theorem twoTo_eq (n : Nat) : twoTo n = 2 ^ n := rfl

/-! ### Bits of signed words

A word with a sign bit is, as an integer, the one below the opposite of its complement. So an operator
on integers is one on the words or their complements, whatever the signs are. -/

section SignedWords

variable {w : Nat} (x y : BitVec w)

/-- A word as an integer, by its sign. -/
def signCases : Int := bif x.msb then .negSucc (~~~x).toNat else .ofNat x.toNat

theorem toInt_eq_signCases : x.toInt = signCases x := by
  have := x.isLt
  cases hsign : x.msb with
  | false => rw [signCases, hsign, BitVec.toInt_eq_toNat_of_msb hsign]; rfl
  | true =>
    rw [signCases, hsign, BitVec.toInt_eq_msb_cond, if_pos hsign, cond_true, BitVec.toNat_not]
    omega

theorem without_toNat : without x.toNat y.toNat = (x &&& ~~~y).toNat := by
  have hbits : x &&& ~~~y = x ^^^ (x &&& y) := by
    ext i hi
    cases hx : x[i] <;> cases hy : y[i] <;> simp [hx, hy]
  rw [hbits, BitVec.toNat_xor, BitVec.toNat_and, without]

theorem bitwiseOr_toInt : bitwiseOr x.toInt y.toInt = (x ||| y).toInt := by
  simp only [toInt_eq_signCases, signCases, BitVec.msb_or, BitVec.not_or]
  cases x.msb <;> cases y.msb <;>
    simp only [cond_true, cond_false, Bool.or_true, Bool.or_false, Bool.or_self, bitwiseOr, without_toNat,
      BitVec.toNat_or, BitVec.toNat_and, BitVec.and_comm]

theorem bitwiseAnd_toInt : bitwiseAnd x.toInt y.toInt = (x &&& y).toInt := by
  simp only [toInt_eq_signCases, signCases, BitVec.msb_and, BitVec.not_and]
  cases x.msb <;> cases y.msb <;>
    simp only [cond_true, cond_false, Bool.and_true, Bool.and_false, Bool.and_self, bitwiseAnd, without_toNat,
      BitVec.toNat_or, BitVec.not_not, BitVec.toNat_and, BitVec.and_comm]

theorem bitwiseXor_toInt : bitwiseXor x.toInt y.toInt = (x ^^^ y).toInt := by
  simp only [toInt_eq_signCases, signCases, BitVec.msb_xor]
  cases x.msb <;> cases y.msb <;>
    simp only [cond_true, cond_false, Bool.xor_true, Bool.xor_false, Bool.xor_self, bitwiseXor,
      ← BitVec.not_xor_left, ← BitVec.not_xor_right, BitVec.not_not, ← BitVec.toNat_xor, Bool.not_false]

theorem bitwiseNot_toInt (hw : 0 < w) : ~~~x.toInt = (~~~x).toInt := by
  rw [toInt_eq_signCases, toInt_eq_signCases, signCases, signCases, BitVec.msb_not, BitVec.not_not]
  cases x.msb with
  | false => simp only [hw, decide_true, Bool.not_false, Bool.and_true, cond_true, cond_false]; rfl
  | true => simp only [Bool.not_true, Bool.and_false, cond_true, cond_false]; rfl

end SignedWords

/-! ### One operator after the other -/

theorem or_eq (a b : Int) : or a b = (bits a ||| bits b).toInt := by
  rw [or, signedOf_eq, signedOf_eq, bitwiseOr_toInt]

theorem and_eq (a b : Int) : and a b = (bits a &&& bits b).toInt := by
  rw [and, signedOf_eq, signedOf_eq, bitwiseAnd_toInt]

theorem xor_eq (a b : Int) : xor a b = (bits a ^^^ bits b).toInt := by
  rw [xor, signedOf_eq, signedOf_eq, bitwiseXor_toInt]

/-- A product is cut to 32 bits after the shift. -/
theorem shiftLeft_eq (a b : Int) : shiftLeft a b = (bits a <<< (b % 32).toNat).toInt := by
  have hfactor (k : Nat) : BitVec.ofNat 32 (2 ^ k) = BitVec.twoPow 32 k := by
    apply BitVec.eq_of_toNat_eq
    rw [BitVec.toNat_ofNat, BitVec.toNat_twoPow]
  have hword (k : Nat) : bits ((bits a).toInt * twoTo k) = bits a <<< k := by
    rw [bits, BitVec.ofInt_mul, BitVec.ofInt_toInt, twoTo_eq, BitVec.ofInt_natCast, hfactor,
      BitVec.shiftLeft_eq_mul_twoPow]
  rw [shiftLeft, signedOf_eq, signedOf_eq, hword, shiftCount_eq]

/-- A quotient rounded down is what the sign shifted in makes of a word. -/
theorem shiftRight_eq (a b : Int) : shiftRight a b = ((bits a).sshiftRight (b % 32).toNat).toInt := by
  rw [shiftRight, signedOf_eq, shiftCount_eq, BitVec.toInt_sshiftRight,
    Int.shiftRight_eq_div_pow, twoTo_eq, Int.fdiv_eq_ediv_of_nonneg _ (Int.natCast_nonneg _)]

theorem shiftRightUnsigned_eq (a b : Int) :
    shiftRightUnsigned a b = (bits a >>> (b % 32).toNat).toNat := by
  rw [shiftRightUnsigned, ofInt_eq, shiftCount_eq, BitVec.toNat_ushiftRight, Nat.shiftRight_eq_div_pow,
    twoTo_eq]

theorem not_eq (a : Int) : not a = (~~~bits a).toInt := by
  exact (congrArg (~~~·) (signedOf_eq a)).trans (bitwiseNot_toInt _ (by decide))

/-! ### What the operators answer -/

/-- The operators on two words. -/
inductive BitOperator where
  | or | and | xor | shiftLeft | shiftRight | shiftRightUnsigned

namespace BitOperator

def sign : BitOperator → String
  | or => "|"
  | and => "&"
  | xor => "^"
  | shiftLeft => "<<"
  | shiftRight => ">>"
  | shiftRightUnsigned => ">>>"

/-- What an operator makes of the words of two integers. -/
def answer (o : BitOperator) (a b : Int) : Int :=
  match o with
  | or => (bits a ||| bits b).toInt
  | and => (bits a &&& bits b).toInt
  | xor => (bits a ^^^ bits b).toInt
  | shiftLeft => (bits a <<< (b % 32).toNat).toInt
  | shiftRight => ((bits a).sshiftRight (b % 32).toNat).toInt
  | shiftRightUnsigned => (bits a >>> (b % 32).toNat).toNat

/-- The answers of an operator: words with a sign, of the unsigned shift words without. -/
def InRange : BitOperator → Int → Prop
  | shiftRightUnsigned, r => 0 ≤ r ∧ r < 2 ^ 32
  | _, r => -2 ^ 31 ≤ r ∧ r < 2 ^ 31

/-- The operator of the source language that a sign stands for. -/
def operator : BitOperator → BinaryOperator
  | or => .or
  | and => .and
  | xor => .xor
  | shiftLeft => .shiftLeft
  | shiftRight => .shiftRight
  | shiftRightUnsigned => .shiftRightUnsigned

variable (o : BitOperator) {a a' b b' : Int}

theorem ofText?_sign : BinaryOperator.ofText? o.sign = some o.operator := by
  cases o <;> decide

/-- Only division asks for more than two numbers. -/
theorem divides_operator : o.operator.divides = false := by
  cases o <;> rfl

theorem apply_operator (a b : Int) :
    o.operator.apply (.integer a) (.integer b) = .ok (some (.integer (o.answer a b))) := by
  cases o with
  | or => rw [answer, ← or_eq]; rfl
  | and => rw [answer, ← and_eq]; rfl
  | xor => rw [answer, ← xor_eq]; rfl
  | shiftLeft => rw [answer, ← shiftLeft_eq]; rfl
  | shiftRight => rw [answer, ← shiftRight_eq]; rfl
  | shiftRightUnsigned => rw [answer, ← shiftRightUnsigned_eq]; rfl

theorem inRange_toInt (x : BitVec 32) : -2 ^ 31 ≤ x.toInt ∧ x.toInt < 2 ^ 31 :=
  ⟨BitVec.le_toInt x, BitVec.toInt_lt⟩

theorem inRange_answer (a b : Int) : o.InRange (o.answer a b) := by
  cases o with
  | shiftRightUnsigned =>
    have := (bits a >>> (b % 32).toNat).isLt
    simp only [InRange, answer]
    omega
  | or | and | xor | shiftLeft | shiftRight => exact inRange_toInt _

/-- All but the lowest 32 bits of the operands are ignored. -/
theorem answer_congr (ha : a % 2 ^ 32 = a' % 2 ^ 32) (hb : b % 2 ^ 32 = b' % 2 ^ 32) :
    o.answer a b = o.answer a' b' := by
  have hcount : b % 32 = b' % 32 := by omega
  cases o <;> simp only [answer, bits_congr ha, bits_congr hb, hcount]

end BitOperator

theorem apply_complement (a : Int) :
    UnaryOperator.complement.apply (.integer a) = .ok (.integer (~~~bits a).toInt) := by
  rw [← not_eq]
  rfl

end Word
open Syntax Evaluation Word

/-! ### Bit operators in expressions -/

section Expressions

variable {recur : Evaluator} {bindings : Bindings} {s : Site} {sign : String} {a b : Int}

/-- An expression `left sign right` whose operands come to integers. -/
structure Combines (recur : Evaluator) (bindings : Bindings) (s : Site) (sign : String) (a b : Int) :
    Prop where
  kind : s.kind? = some .binaryExpression
  operator : operatorText s = sign
  left : partValue recur bindings s .left = value (.integer a)
  right : partValue recur bindings s .right = value (.integer b)

/-- An expression `~argument` whose argument comes to an integer. -/
structure Complements (recur : Evaluator) (bindings : Bindings) (s : Site) (a : Int) : Prop where
  kind : s.kind? = some .unaryExpression
  operator : operatorText s = "~"
  argument : partValue recur bindings s .argument = value (.integer a)

theorem Combines.valueOf {o : BitOperator} (h : Combines recur bindings s o.sign a b) (p : Project) :
    p.valueOf recur bindings s = value (.integer (o.answer a b)) := by
  have hoperator : BinaryOperator.ofText? (operatorText s) = some o.operator := by
    rw [h.operator, o.ofText?_sign]
  simp only [Project.valueOf, h.kind, binaryValue, hoperator, h.left, h.right]
  simp [value, bind, Except.bind, numberOf?, Value.isNumber, o.divides_operator, o.apply_operator,
    finiteResult]

theorem Complements.valueOf (h : Complements recur bindings s a) (p : Project) :
    p.valueOf recur bindings s = value (.integer (~~~bits a).toInt) := by
  have hoperator : UnaryOperator.ofText? (operatorText s) = some .complement := by
    rw [h.operator]
    decide
  simp only [Project.valueOf, h.kind, unaryValue, hoperator, h.argument]
  simp [value, bind, Except.bind, numberOf?, Value.isNumber, apply_complement, finiteResult]

end Expressions

/-- **Bit operators.** On integers of any size and sign, evaluation of a bit operator comes to what the
operation on bit vectors makes of the operands modulo 2^32, with a shift count modulo 32: a number of
32 bits, with a sign unless the shift is an unsigned one. Operands that are alike modulo 2^32 come to
the same. -/
theorem bit_operators_exact (p : Project) (depth : Nat) (bindings : Bindings) (s : Site) (a b : Int) :
    (∀ o : BitOperator, Combines (p.evaluateWithin depth) bindings s.unwrap o.sign a b →
      p.evaluateWithin (depth + 1) s bindings = value (.integer (o.answer a b)) ∧
      o.InRange (o.answer a b) ∧
      ∀ s' a' b', Combines (p.evaluateWithin depth) bindings s'.unwrap o.sign a' b' →
        a' % 2 ^ 32 = a % 2 ^ 32 → b' % 2 ^ 32 = b % 2 ^ 32 →
        p.evaluateWithin (depth + 1) s' bindings = p.evaluateWithin (depth + 1) s bindings) ∧
    (Complements (p.evaluateWithin depth) bindings s.unwrap a →
      p.evaluateWithin (depth + 1) s bindings = value (.integer (~~~bits a).toInt) ∧
      -2 ^ 31 ≤ (~~~bits a).toInt ∧ (~~~bits a).toInt < 2 ^ 31 ∧
      ∀ s' a', Complements (p.evaluateWithin depth) bindings s'.unwrap a' →
        a' % 2 ^ 32 = a % 2 ^ 32 →
        p.evaluateWithin (depth + 1) s' bindings = p.evaluateWithin (depth + 1) s bindings) := by
  constructor
  · intro o h
    have hvalue : p.evaluateWithin (depth + 1) s bindings = value (.integer (o.answer a b)) := h.valueOf p
    refine ⟨hvalue, o.inRange_answer a b, ?_⟩
    intro s' a' b' h' ha hb
    rw [hvalue, ← o.answer_congr ha hb]
    exact h'.valueOf p
  · intro h
    have hvalue : p.evaluateWithin (depth + 1) s bindings = value (.integer (~~~bits a).toInt) := h.valueOf p
    refine ⟨hvalue, BitVec.le_toInt _, BitVec.toInt_lt, ?_⟩
    intro s' a' h' ha
    rw [hvalue, ← bits_congr ha]
    exact h'.valueOf p

/-! ### Four expressions -/

/-- The expression `-1 >>> 33`. -/
def shiftedNode : Node :=
  .tree .binaryExpression none
    [.tree .unaryExpression (some .left)
       [.token (some .operator) "" "-", .leaf .number (some .argument) "" "1"],
     .token (some .operator) " " ">>>", .leaf .number (some .right) " " "33"]

/-- The expression `4294967295 >>> 33`, of the same words. -/
def shiftedWordNode : Node :=
  .tree .binaryExpression none
    [.leaf .number (some .left) "" "4294967295", .token (some .operator) " " ">>>",
     .leaf .number (some .right) " " "33"]

/-- The complement of a number. -/
def complementNode (numeral : String) : Node :=
  .tree .unaryExpression none
    [.token (some .operator) "" "~", .leaf .number (some .argument) "" numeral]

theorem wrapped_operands_alike :
    parse .plain "\nprobe(-1 >>> 33);" = .tree .program none [probeNode shiftedNode] ∧
    parse .plain "\nprobe(~0x100000000);" = .tree .program none [probeNode (complementNode "0x100000000")] ∧
    bareProject.evaluate (siteOf shiftedNode) [] = value (.integer 2147483647) ∧
    bareProject.evaluate (siteOf shiftedWordNode) [] = bareProject.evaluate (siteOf shiftedNode) [] ∧
    bareProject.evaluate (siteOf (complementNode "0x100000000")) [] = value (.integer (-1)) ∧
    bareProject.evaluate (siteOf (complementNode "0")) [] =
      bareProject.evaluate (siteOf (complementNode "0x100000000")) [] := by
  have hshifts := bit_operators_exact bareProject 32 [] (siteOf shiftedNode) (-1) 33
  have hcomplements :=
    bit_operators_exact bareProject 32 [] (siteOf (complementNode "0x100000000")) 4294967296 0
  obtain ⟨hshifted, -, hword⟩ := hshifts.1 .shiftRightUnsigned ⟨rfl, rfl, rfl, rfl⟩
  obtain ⟨hcomplement, -, -, hzero⟩ := hcomplements.2 ⟨rfl, rfl, rfl⟩
  exact ⟨by decide +kernel, by decide +kernel, hshifted,
    hword (siteOf shiftedWordNode) 4294967295 33 ⟨rfl, rfl, rfl, rfl⟩ (by decide) (by decide),
    hcomplement, hzero (siteOf (complementNode "0")) 0 ⟨rfl, rfl, rfl⟩ (by decide)⟩

end SettingsHarvest
