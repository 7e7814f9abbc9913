import ComponentInsight.Number.Binary64

/-!
# Shortest decimal text

A binary64 value is written with the fewest significant digits that read back as the same value,
the nearest such decimal, always positionally: `0.0000001`, `1000000000000000000000`. Infinity is
`inf`.
-/

namespace ComponentInsight.Magnitude

/-- A decimal `digits * 10 ^ exponent`. -/
structure Decimal where
  digits : Nat
  exponent : Int
  deriving DecidableEq, Repr

/-- The reals that round to a value, as numerators over one denominator: the lower end, the value
and the upper end. The ends belong to the interval when `closed`. -/
structure Interval where
  low : Nat
  value : Nat
  high : Nat
  denominator : Nat
  closed : Bool

/-- The interval of `m * 2 ^ e`. Below a power of two the next value is only half as far. -/
def interval (m : Nat) (e : Int) : Interval :=
  let t := e - 2
  let up := if 0 ≤ t then Nat.pow 2 t.toNat else 1
  let below := if m = Nat.pow 2 52 ∧ minExponent < e then 1 else 2
  { low := (4 * m - below) * up
    value := 4 * m * up
    high := (4 * m + 2) * up
    denominator := if 0 ≤ t then 1 else Nat.pow 2 (-t).toNat
    closed := m % 2 = 0 }

/-- Numerator of `digits * 10 ^ p` and the factor the interval's numerators have to be multiplied
with for a comparison. -/
def onGrid (i : Interval) (digits : Nat) (p : Int) : Nat × Nat :=
  if 0 ≤ p then (digits * Nat.pow 10 p.toNat * i.denominator, 1)
  else (digits * i.denominator, Nat.pow 10 (-p).toNat)

/-- Whether `digits * 10 ^ p` lies in the interval. -/
def Interval.holds (i : Interval) (digits : Nat) (p : Int) : Bool :=
  let (x, scale) := onGrid i digits p
  if i.closed then i.low * scale ≤ x && x ≤ i.high * scale
  else i.low * scale < x && x < i.high * scale

/-- Distance of `digits * 10 ^ p` to the value, in units shared by all points of that grid. -/
def Interval.distance (i : Interval) (digits : Nat) (p : Int) : Nat :=
  let (x, scale) := onGrid i digits p
  (x - i.value * scale) + (i.value * scale - x)

/-- The largest multiple of `10 ^ p` not above the value, divided by `10 ^ p`. -/
def Interval.floorAt (i : Interval) (p : Int) : Nat :=
  if 0 ≤ p then i.value / (Nat.pow 10 p.toNat * i.denominator)
  else i.value * Nat.pow 10 (-p).toNat / i.denominator

/-- The nearer of the value's two neighbours on the grid `10 ^ p` that lie in the interval. -/
def Interval.pick (i : Interval) (p : Int) : Option Decimal :=
  let d := i.floorAt p
  match i.holds d p, i.holds (d + 1) p with
  | true, true => some ⟨if i.distance d p ≤ i.distance (d + 1) p then d else d + 1, p⟩
  | true, false => some ⟨d, p⟩
  | false, true => some ⟨d + 1, p⟩
  | false, false => none

/-- The exponent of the leading digit: the largest `k` with `10 ^ k` not above the value, searched
downwards from a bound. -/
def leadingExponent (i : Interval) : Nat → Int → Int
  | 0, k => k
  | fuel + 1, k => if i.floorAt k = 0 then leadingExponent i fuel (k - 1) else k

/-- The first grid, from coarse to fine, with a point in the interval. -/
def search (i : Interval) : Nat → Int → Decimal
  | 0, p => ⟨i.floorAt p, p⟩
  | fuel + 1, p => (i.pick p).getD (search i fuel (p - 1))

/-- The shortest decimal of a positive value. -/
def shortest (m : Nat) (e : Int) : Decimal :=
  let i := interval m e
  search i 17 (leadingExponent i 650 310)

/-- The positional text of a decimal, without trailing zeros after the point. -/
def Decimal.text (d : Decimal) : String :=
  let digits := Nat.toDigits 10 d.digits
  if 0 ≤ d.exponent then String.ofList (digits ++ List.replicate d.exponent.toNat '0')
  else
    let places := (-d.exponent).toNat
    let padded := List.replicate (places + 1 - digits.length) '0' ++ digits
    let whole := padded.take (padded.length - places)
    let fraction := (padded.drop (padded.length - places)).reverse.dropWhile (· == '0')
    if fraction.isEmpty then String.ofList whole
    else String.ofList (whole ++ '.' :: fraction.reverse)

/-- The text of a value. -/
def text : Magnitude → String
  | .infinite => "inf"
  | .finite 0 _ => "0"
  | .finite m e => (shortest m e).text

end ComponentInsight.Magnitude
