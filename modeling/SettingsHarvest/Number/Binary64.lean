import SettingsHarvest.Number.Power

/-! Binary floating-point numbers of 64 bits.

A finite number is a sign, a mantissa below 2^53 and an exponent of two. Every operation computes
its exact result as a ratio of integers and rounds it once, to the nearest number and on a tie to the
even mantissa (`ofRatio`); numbers too large to round become infinite. Nothing here depends on the
machine's own floating point, so every result can be reasoned about and evaluated. -/
namespace SettingsHarvest

inductive Binary64 where
  /-- Plus or minus `mantissa · 2 ^ exponent`. -/
  | finite (negative : Bool) (mantissa : Nat) (exponent : Int)
  | infinite (negative : Bool)
  | nan
  deriving DecidableEq, Inhabited

namespace Binary64

/-- The exponent of the smallest positive number, which is also that of zero. -/
def leastExponent : Int := -1074

/-- The exponent of the largest numbers. -/
def greatestExponent : Int := 971

def zero (negative : Bool) : Binary64 := finite negative 0 leastExponent

/-! ### Rounding -/

/-- The quotient rounded to the nearest integer, a half to the even neighbour. -/
def roundDiv (num den : Nat) : Nat :=
  let q := num / den
  let r := num % den
  if 2 * r > den || (2 * r == den && q % 2 == 1) then q + 1 else q

/-- `num / den` in units of `2 ^ e`, as a ratio. -/
def scale (num den : Nat) (e : Int) : Nat × Nat :=
  if e ≥ 0 then (num, den * twoTo e.toNat) else (num * twoTo (-e).toNat, den)

/-- The number nearest to a ratio. -/
def ofRatio (negative : Bool) (num den : Nat) : Binary64 :=
  if num == 0 then zero negative
  else
    let low : Int := (Nat.log2 num : Int) - (Nat.log2 den : Int) - 53
    let e₀ := max low leastExponent
    let (n₀, d₀) := scale num den e₀
    let e := if n₀ / d₀ ≥ twoTo 53 then e₀ + 1 else e₀
    let (n, d) := scale num den e
    let m := roundDiv n d
    let (m, e) := if m == twoTo 53 then (twoTo 52, e + 1) else (m, e)
    if e > greatestExponent then infinite negative else finite negative m e

/-- The number nearest to an integer. -/
def ofInt (n : Int) : Binary64 := ofRatio (n < 0) n.natAbs 1

/-- The number nearest to `digits · 10 ^ power`. -/
def ofDecimal (negative : Bool) (digits : Nat) (power : Int) : Binary64 :=
  if digits == 0 then zero negative
  else
    let magnitude := (Nat.toDigits 10 digits).length + power
    if magnitude > 400 then infinite negative
    else if magnitude < -400 then zero negative
    else if power ≥ 0 then ofRatio negative (digits * tenTo power.toNat) 1
    else ofRatio negative digits (tenTo (-power).toNat)

/-! ### Views -/

def isFinite : Binary64 → Bool
  | finite .. => true
  | _ => false

def isZero : Binary64 → Bool
  | finite _ m _ => m == 0
  | _ => false

/-- A sign and a magnitude as an integer. -/
def signed (negative : Bool) (n : Nat) : Int := if negative then -(n : Int) else n

/-- The integer part, toward zero; none for what is not finite. -/
def truncate? : Binary64 → Option Int
  | finite s m e =>
    some (signed s (if e ≥ 0 then m * twoTo e.toNat else m / twoTo (-e).toNat))
  | _ => none

/-- The integer a number is equal to, if there is one. -/
def toInt? : Binary64 → Option Int
  | finite s m e =>
    if e ≥ 0 then some (signed s (m * twoTo e.toNat))
    else if m % twoTo (-e).toNat == 0 then some (signed s (m / twoTo (-e).toNat))
    else none
  | _ => none

def isInteger (x : Binary64) : Bool := x.toInt?.isSome

/-! ### Arithmetic -/

def neg : Binary64 → Binary64
  | finite s m e => finite (!s) m e
  | infinite s => infinite (!s)
  | nan => nan

/-- A finite number in units of `2 ^ e`, for an `e` that is no larger than its exponent. -/
def inUnits (s : Bool) (m : Nat) (x e : Int) : Int := signed s (m * twoTo (x - e).toNat)

/-- The number nearest to `n · 2 ^ e`; a zero has the given sign. -/
def ofUnits (zeroSign : Bool) (n : Int) (e : Int) : Binary64 :=
  if n == 0 then zero zeroSign
  else
    let (a, b) := if e ≥ 0 then (n.natAbs * twoTo e.toNat, 1) else (n.natAbs, twoTo (-e).toNat)
    ofRatio (n < 0) a b

def add : Binary64 → Binary64 → Binary64
  | finite s m x, finite t n y =>
    let e := min x y
    ofUnits (s && t) (inUnits s m x e + inUnits t n y e) e
  | nan, _ | _, nan => nan
  | infinite s, infinite t => if s == t then infinite s else nan
  | infinite s, _ | _, infinite s => infinite s

def sub (a b : Binary64) : Binary64 := add a b.neg

def mul : Binary64 → Binary64 → Binary64
  | finite s m x, finite t n y => ofUnits (s != t) (signed (s != t) (m * n)) (x + y)
  | nan, _ | _, nan => nan
  | infinite s, finite t n _ => if n == 0 then nan else infinite (s != t)
  | finite s m _, infinite t => if m == 0 then nan else infinite (s != t)
  | infinite s, infinite t => infinite (s != t)

/-- The quotient; the divisor is taken to be other than zero. -/
def div : Binary64 → Binary64 → Binary64
  | finite s m x, finite t n y =>
    let (a, b) := if x ≥ y then (m * twoTo (x - y).toNat, n) else (m, n * twoTo (y - x).toNat)
    if m == 0 then zero (s != t) else ofRatio (s != t) a b
  | nan, _ | _, nan => nan
  | infinite s, finite t _ _ => infinite (s != t)
  | finite s _ _, infinite t => zero (s != t)
  | infinite _, infinite _ => nan

/-- The remainder of the quotient toward zero: it has the sign of the dividend. The divisor is taken
to be other than zero and the dividend to be finite. -/
def remainder : Binary64 → Binary64 → Binary64
  | finite s m x, finite _ n y =>
    let e := min x y
    let r := (m * twoTo (x - e).toNat) % (n * twoTo (y - e).toNat)
    ofUnits s (signed s r) e
  | nan, _ | _, nan => nan
  | a, infinite _ => a
  | infinite _, _ => nan

/-- Numbers are equal by value: the two zeros are, and nothing equals what is no number. -/
def sameValue : Binary64 → Binary64 → Bool
  | finite s m x, finite t n y =>
    let e := min x y
    inUnits s m x e == inUnits t n y e
  | infinite s, infinite t => s == t
  | _, _ => false

end Binary64
end SettingsHarvest
