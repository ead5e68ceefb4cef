import SettingsHarvest.Number.Word
import SettingsHarvest.Value

/-! Operators on numbers.

Sums, differences and products of integers are exact; a quotient is the floating-point number nearest
to it, and so is everything a floating-point number takes part in. The remainder is that of
floating-point numbers, and the bit operators see words of 32 bits. An integer that floating point
cannot hold makes an operation overflow, which is no answer (`none`) rather than an infinite one. -/
namespace SettingsHarvest

inductive BinaryOperator where
  | plus | minus | times | dividedBy | remainder | or | and | xor | shiftLeft | shiftRight
  | shiftRightUnsigned
  deriving DecidableEq

inductive UnaryOperator where
  | minus | plus | complement
  deriving DecidableEq

def BinaryOperator.ofText? (t : String) : Option BinaryOperator :=
  [("+", plus), ("-", minus), ("*", times), ("/", dividedBy), ("%", remainder), ("|", or), ("&", and),
   ("^", xor), ("<<", shiftLeft), (">>", shiftRight), (">>>", shiftRightUnsigned)].lookup t

def UnaryOperator.ofText? (t : String) : Option UnaryOperator :=
  [("-", minus), ("+", plus), ("~", complement)].lookup t

/-- Whether an operator has no answer when its right operand is zero. -/
def BinaryOperator.divides (o : BinaryOperator) : Bool := o == .dividedBy || o == .remainder

namespace Value

def isZero : Value → Bool
  | integer n => n == 0
  | decimal x => x.isZero
  | _ => false

/-- A number in floating point; none if it is an integer beyond its range. -/
def asDecimal? : Value → Option Binary64
  | integer n =>
    let x := Binary64.ofInt n
    if x.isFinite then some x else none
  | decimal x => some x
  | _ => none

/-- The integer part of a number; none if it is infinite. -/
def asWhole? : Value → Except Fault (Option Int)
  | integer n => .ok (some n)
  | decimal x => match x with
    | .nan => .error .nanToInteger
    | x => .ok x.truncate?
  | _ => .ok none

/-- An operation that is exact on integers. -/
def combine (exact : Int → Int → Int) (rounded : Binary64 → Binary64 → Binary64) (a b : Value) :
    Option Value :=
  match a, b with
  | integer m, integer n => some (integer (exact m n))
  | a, b => match a.asDecimal?, b.asDecimal? with
    | some x, some y => some (decimal (rounded x y))
    | _, _ => none

/-- A quotient; of two integers, the number nearest to it. -/
def quotient (a b : Value) : Option Value :=
  match a, b with
  | integer m, integer n =>
    let x := Binary64.ofRatio ((m < 0) != (n < 0)) m.natAbs n.natAbs
    if x.isFinite then some (decimal x) else none
  | a, b => match a.asDecimal?, b.asDecimal? with
    | some x, some y => some (decimal (x.div y))
    | _, _ => none

/-- A remainder in floating point; an infinite dividend has none. -/
def remainder (a b : Value) : Except Fault (Option Value) :=
  match a.asDecimal?, b.asDecimal? with
  | some (.infinite _), some (.finite ..) => .error .remainderUndefined
  | some (.infinite _), some (.infinite _) => .error .remainderUndefined
  | some x, some y => .ok (some (decimal (x.remainder y)))
  | _, _ => .ok none

/-- An operation on words. -/
def onWords (f : Int → Int → Int) (a b : Value) : Except Fault (Option Value) := do
  match ← a.asWhole? with
  | none => return none
  | some m => match ← b.asWhole? with
    | none => return none
    | some n => return some (integer (f m n))

end Value

/-- The answer of an operator on two numbers; none if it overflows. -/
def BinaryOperator.apply (o : BinaryOperator) (a b : Value) : Except Fault (Option Value) :=
  match o with
  | plus => .ok (Value.combine (· + ·) Binary64.add a b)
  | minus => .ok (Value.combine (· - ·) Binary64.sub a b)
  | times => .ok (Value.combine (· * ·) Binary64.mul a b)
  | dividedBy => .ok (Value.quotient a b)
  | remainder => Value.remainder a b
  | or => Value.onWords Word.or a b
  | and => Value.onWords Word.and a b
  | xor => Value.onWords Word.xor a b
  | shiftLeft => Value.onWords Word.shiftLeft a b
  | shiftRight => Value.onWords Word.shiftRight a b
  | shiftRightUnsigned => Value.onWords Word.shiftRightUnsigned a b

/-- The answer of an operator on a number. -/
def UnaryOperator.apply (o : UnaryOperator) (a : Value) : Except Fault Value :=
  match o, a with
  | minus, .integer n => .ok (.integer (-n))
  | minus, .decimal x => .ok (.decimal x.neg)
  | complement, a => do
    match ← a.asWhole? with
    | some n => return .integer (Word.not n)
    | none => throw .infiniteToInteger
  | _, a => .ok a

end SettingsHarvest
