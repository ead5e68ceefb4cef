import SettingsHarvest.Number.Power

/-! Integers as words of 32 bits.

Bit operators of the source language see an integer only modulo 2^32, and all of them but the
unsigned shift answer a signed word. Shift counts are taken modulo 32.

The operators are those on integers, applied to signed words. An integer has infinitely many bits, a
negative one those that the natural number one below its opposite has not. -/
namespace SettingsHarvest.Word

/-! ### Bits of integers -/

/-- The bits of `m` that are not bits of `n`. -/
def without (m n : Nat) : Nat := m ^^^ (m &&& n)

def bitwiseOr : Int → Int → Int
  | .ofNat m, .ofNat n => .ofNat (m ||| n)
  | .ofNat m, .negSucc n => .negSucc (without n m)
  | .negSucc m, .ofNat n => .negSucc (without m n)
  | .negSucc m, .negSucc n => .negSucc (m &&& n)

def bitwiseAnd : Int → Int → Int
  | .ofNat m, .ofNat n => .ofNat (m &&& n)
  | .ofNat m, .negSucc n => .ofNat (without m n)
  | .negSucc m, .ofNat n => .ofNat (without n m)
  | .negSucc m, .negSucc n => .negSucc (m ||| n)

def bitwiseXor : Int → Int → Int
  | .ofNat m, .ofNat n => .ofNat (m ^^^ n)
  | .ofNat m, .negSucc n => .negSucc (m ^^^ n)
  | .negSucc m, .ofNat n => .negSucc (m ^^^ n)
  | .negSucc m, .negSucc n => .ofNat (m ^^^ n)

/-! ### Words -/

/-- The word an integer stands for, as a number below 2^32. -/
def ofInt (n : Int) : Nat := (n % 4294967296).toNat

/-- A word read with its highest bit as sign. -/
def signed (w : Nat) : Int := if w ≥ 2147483648 then (w : Int) - 4294967296 else w

/-- The signed word an integer stands for. -/
def signedOf (n : Int) : Int := signed (ofInt n)

def shiftCount (n : Int) : Nat := ofInt n % 32

def or (a b : Int) : Int := bitwiseOr (signedOf a) (signedOf b)

def and (a b : Int) : Int := bitwiseAnd (signedOf a) (signedOf b)

def xor (a b : Int) : Int := bitwiseXor (signedOf a) (signedOf b)

def not (a : Int) : Int := ~~~signedOf a

/-- What a shift pushes out of the word is lost. -/
def shiftLeft (a b : Int) : Int := signedOf (signedOf a * twoTo (shiftCount b))

/-- The sign is shifted in from the left. -/
def shiftRight (a b : Int) : Int := Int.fdiv (signedOf a) (twoTo (shiftCount b))

/-- Zeros are shifted in from the left. -/
def shiftRightUnsigned (a b : Int) : Int := (ofInt a / twoTo (shiftCount b) : Nat)

end SettingsHarvest.Word
