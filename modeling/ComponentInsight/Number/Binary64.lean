/-!
# Binary64 magnitudes

A numeric literal denotes a non-negative binary64 value. A `Magnitude` holds it exactly, as
`mantissa * 2 ^ exponent`, so rounding is arithmetic on natural numbers. `ofRatio` is the value
nearest to a quotient, a tie going to the even mantissa.
-/

namespace ComponentInsight

/-- A non-negative binary64 value. -/
inductive Magnitude where
  /-- The value `mantissa * 2 ^ exponent`. -/
  | finite (mantissa : Nat) (exponent : Int)
  /-- Above the largest finite value. -/
  | infinite
  deriving DecidableEq, Repr

namespace Magnitude

/-- The least exponent, that of the subnormal values. -/
def minExponent : Int := -1074

/-- The largest exponent of a finite value. -/
def maxExponent : Int := 971

def zero : Magnitude := .finite 0 minExponent

/-- The quotient rounded to the nearest integer, a tie going to the even one. -/
def roundDiv (n d : Nat) : Nat :=
  let q := n / d
  let r := n % d
  if 2 * r < d then q else if d < 2 * r then q + 1 else q + q % 2

/-- Numerator and denominator of `(n / d) / 2 ^ e`. -/
def scaleDown (n d : Nat) (e : Int) : Nat × Nat :=
  if 0 ≤ e then (n, d * Nat.pow 2 e.toNat) else (n * Nat.pow 2 (-e).toNat, d)

/-- The exponent at which `n / d` has a mantissa of 53 bits, or the least one. -/
def exponentFor (n d : Nat) : Int :=
  let guess := max ((n.log2 : Int) - (d.log2 : Int) - 53) minExponent
  let (a, b) := scaleDown n d guess
  if Nat.pow 2 53 ≤ a / b then guess + 1 else guess

/-- The value nearest to `n / d`, for a positive `d`. -/
def ofRatio (n d : Nat) : Magnitude :=
  if n = 0 then zero
  else
    let e := exponentFor n d
    let (a, b) := scaleDown n d e
    let m := roundDiv a b
    let (m, e) := if m = Nat.pow 2 53 then (Nat.pow 2 52, e + 1) else (m, e)
    if maxExponent < e then .infinite else .finite m e

/-- The value nearest to a natural number. -/
def ofNat (n : Nat) : Magnitude := ofRatio n 1

/-- The value nearest to `digits * 10 ^ exponent`. Exponents beyond the range of binary64 are
decided by the number of digits, so that no large power is computed. -/
def ofDecimal (digits : Nat) (exponent : Int) : Magnitude :=
  if digits = 0 then zero
  else
    let places := ((Nat.toDigits 10 digits).length : Int) + exponent
    if places > 310 then .infinite
    else if places < -330 then zero
    else if 0 ≤ exponent then ofNat (digits * Nat.pow 10 exponent.toNat)
    else ofRatio digits (Nat.pow 10 (-exponent).toNat)

/-- The nearest integer with at most 53 significant bits. -/
def roundBits (n : Nat) : Nat :=
  let drop := n.log2 - 52
  roundDiv n (Nat.pow 2 drop) * Nat.pow 2 drop

/-- The value of a digit string accumulated digit by digit, each step rounded to 53 bits. -/
def ofDigits (base : Nat) (digits : List Nat) : Magnitude :=
  ofNat (digits.foldl (fun acc d => roundBits (acc * base + d)) 0)

/-- The bit pattern, for the values `ofRatio` gives. -/
def toBits : Magnitude → UInt64
  | .infinite => 0x7FF0000000000000
  | .finite m e =>
    if m < Nat.pow 2 52 then m.toUInt64
    else ((e - minExponent + 1).toNat * Nat.pow 2 52 + (m - Nat.pow 2 52)).toUInt64

end Magnitude

end ComponentInsight
