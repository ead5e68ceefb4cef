import SettingsHarvest.Number.Binary64

/-! The shortest decimal that reads back as a given number.

A number stands for all reals that round to it. Grids of one, two, … significant digits are tried in
turn; on each the two grid points around the number are looked at, and the first grid with a point
among those reals wins, the nearer of two points first and on a tie the even one. Seventeen digits
always suffice. `decimalText` writes the digits out: positionally while the decimal exponent is from
-4 to 15, with an exponent of at least two digits beyond. -/
namespace SettingsHarvest.Binary64

/-- `10 ^ k ≤ num / den`. -/
def tenPowerLe (k : Int) (num den : Nat) : Bool :=
  if k ≥ 0 then tenTo k.toNat * den ≤ num else den ≤ num * tenTo (-k).toNat

/-- The exponent of the leading decimal digit of a positive ratio. -/
def leadingExponent (num den : Nat) : Int :=
  let guess : Int := (((Nat.log2 num : Int) - (Nat.log2 den : Int)) * 30103) / 100000
  if tenPowerLe (guess + 2) num den then guess + 2
  else if tenPowerLe (guess + 1) num den then guess + 1
  else if tenPowerLe guess num den then guess
  else if tenPowerLe (guess - 1) num den then guess - 1
  else guess - 2

/-- A digit string and the power of ten of its last digit, without zeros at the end. -/
def trimZeros : Nat → Nat → Int → Nat × Int
  | 0, d, p => (d, p)
  | n + 1, d, p => if d % 10 == 0 && d != 0 then trimZeros n (d / 10) (p + 1) else (d, p)

/-- The points of one grid around a number that read back as it, the better one. All lengths are in
one unit: the reals that round to the number reach from `low` to `high` around `mid`, ends included
if `closed`, and neighbouring points are `step` apart. -/
def gridPoint? (low mid high step : Nat) (closed : Bool) : Option Nat :=
  let a := mid / step
  let inside (v : Nat) : Bool :=
    if closed then low ≤ v && v ≤ high else low < v && v < high
  let below := inside (a * step)
  let above := inside ((a + 1) * step)
  if below && above then
    let l := mid - a * step
    let r := (a + 1) * step - mid
    if l < r || (l == r && a % 2 == 0) then some a else some (a + 1)
  else if below then some a
  else if above then some (a + 1)
  else none

/-- Digits and the power of ten of the last one, for a positive finite number. -/
def shortest (m : Nat) (e : Int) : Nat × Int :=
  let q := e - 2
  let below := if m == twoTo 52 && e > leastExponent then 1 else 2
  let (num, den) := if e ≥ 0 then (m * twoTo e.toNat, 1) else (m, twoTo (-e).toNat)
  let k := leadingExponent num den
  let onGrid? (n : Nat) : Option (Nat × Int) :=
    let p := k + 1 - n
    let unit := twoTo q.toNat * tenTo (-p).toNat
    let step := tenTo p.toNat * twoTo (-q).toNat
    (gridPoint? ((4 * m - below) * unit) (4 * m * unit) ((4 * m + 2) * unit) step (m % 2 == 0)).map
      fun a => trimZeros 20 a p
  ((List.range 17).findSome? fun n => onGrid? (n + 1)).getD (m, e)

/-- Digits as text, with the point behind the digit of the given exponent. -/
def positional (digits : List Char) (k : Int) : List Char :=
  if k < 0 then '0' :: '.' :: List.replicate (-k - 1).toNat '0' ++ digits
  else
    let whole := k.toNat + 1
    let front := digits.take whole ++ List.replicate (whole - digits.length) '0'
    let back := digits.drop whole
    front ++ '.' :: (if back.isEmpty then ['0'] else back)

def scientific (digits : List Char) (k : Int) : List Char :=
  let tail := digits.drop 1
  let power := Nat.toDigits 10 k.natAbs
  digits.take 1 ++ (if tail.isEmpty then [] else '.' :: tail)
    ++ ['e', if k < 0 then '-' else '+'] ++ List.replicate (2 - power.length) '0' ++ power

/-- The text of a number. -/
def decimalText : Binary64 → String
  | nan => "nan"
  | infinite s => if s then "-inf" else "inf"
  | finite s m e =>
    let sign := if s then ['-'] else []
    if m == 0 then String.ofList (sign ++ ['0', '.', '0'])
    else
      let (d, p) := shortest m e
      let digits := Nat.toDigits 10 d
      let k := p + digits.length - 1
      String.ofList (sign ++ if k < -4 || k ≥ 16 then scientific digits k else positional digits k)

end SettingsHarvest.Binary64
