/-
Floating-point numbers of 64 bits.

A finite number is a mantissa below `2 ^ 53` times a power of two; all
conversions compare exact integers.  `ofRatio` rounds a positive ratio to the
nearest number, a tie to the even mantissa.
-/

namespace NetconfWire

/-- A floating-point number; the value of a finite one is `± mantissa * 2 ^ exponent`. -/
inductive Binary64
  | nan
  | infinite (negative : Bool)
  | finite (negative : Bool) (mantissa : Nat) (exponent : Int)
  deriving DecidableEq, Repr

namespace Binary64

/-- The least exponent. -/
def minExponent : Int := -1074

/-- The greatest exponent of a finite number. -/
def maxExponent : Int := 971

/-- The first natural number that is no mantissa. -/
def mantissaBound : Nat := Nat.pow 2 53

/-- A positive or negative zero. -/
def zero (negative : Bool) : Binary64 :=
  .finite negative 0 minExponent

/-- A quotient rounded to the nearest natural number, a tie to the even one. -/
def roundDiv (num den : Nat) : Nat :=
  let q := num / den
  let twice := 2 * (num % den)
  if twice < den then q
  else if den < twice then q + 1
  else if q % 2 = 0 then q else q + 1

/-- The two sides of a ratio after division by `2 ^ e`. -/
def scaleDown (num den : Nat) (e : Int) : Nat × Nat :=
  if 0 ≤ e then (num, den * Nat.pow 2 e.toNat) else (num * Nat.pow 2 (-e).toNat, den)

/-- The number nearest to `num / den`, with the given sign. -/
def ofRatio (negative : Bool) (num den : Nat) : Binary64 :=
  if num = 0 then zero negative
  else
    let guess : Int := (Nat.log2 num : Int) - (Nat.log2 den : Int) - 53
    let (n₀, d₀) := scaleDown num den guess
    let e := max minExponent (if mantissaBound ≤ n₀ / d₀ then guess + 1 else guess)
    let (n, d) := scaleDown num den e
    let m := roundDiv n d
    let (m, e) := if m = mantissaBound then (m / 2, e + 1) else (m, e)
    if maxExponent < e then .infinite negative else .finite negative m e

/-- The number nearest to `digits * 10 ^ power`, with the given sign.  Far outside the range of
finite numbers the power alone decides. -/
def ofDecimal (negative : Bool) (digits : Nat) (power : Int) : Binary64 :=
  if digits = 0 then zero negative
  else
    let reach : Int := power + (Nat.toDigits 10 digits).length
    if 400 < reach then .infinite negative
    else if reach < -400 then zero negative
    else if 0 ≤ power then ofRatio negative (digits * Nat.pow 10 power.toNat) 1
    else ofRatio negative digits (Nat.pow 10 (-power).toNat)

/-- The integer part of a finite number, rounded toward zero. -/
def truncate? : Binary64 → Option Int
  | .finite negative m e =>
    let size : Nat := if 0 ≤ e then m * Nat.pow 2 e.toNat else m / Nat.pow 2 (-e).toNat
    some (if negative then -(size : Int) else size)
  | _ => none

/-- The integer that the number is, if it is one. -/
def integer? : Binary64 → Option Int
  | .finite negative m e =>
    if 0 ≤ e || m % Nat.pow 2 (-e).toNat = 0 then (Binary64.finite negative m e).truncate? else none
  | _ => none

/-- The number is a zero. -/
def isZero : Binary64 → Bool
  | .finite _ m _ => m = 0
  | _ => false

/-- Equality of values: the two zeros are equal, and no value equals one that is no number. -/
def same : Binary64 → Binary64 → Bool
  | .nan, _ => false
  | _, .nan => false
  | a, b => a == b || (a.isZero && b.isZero)

end Binary64

end NetconfWire
