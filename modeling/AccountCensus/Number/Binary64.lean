import AccountCensus.Number.Rounding

/-!
# 64-bit floating point magnitudes

A finite magnitude is `mantissa * 2 ^ exponent` with a mantissa of at most 53 bits. `ofNat` and
`ofRatio` give the magnitude nearest to a number, ties going to the even mantissa.

`shortest` gives the shortest decimal number that reads back as the magnitude. All decimals of the
magnitude are first made whole, by a power of ten where the exponent is negative, and quarters of
a unit are counted, so that the bounds of the interval of numbers that read back are whole too.
The longest step between decimal numbers that has one in the interval wins, and of two the
nearer one.
-/

namespace AccountCensus.Number

structure Binary64 where
  mantissa : Nat
  exponent : Int
deriving DecidableEq, Repr, Inhabited

namespace Binary64

/-- The least exponent of a finite magnitude. -/
def minExponent : Int := -1074

/-- The least power of two above all finite magnitudes is `2 ^ maxPower`. -/
def maxPower : Nat := 1024

/-- A mantissa that was rounded up to 54 bits takes the next exponent. -/
def ofRounded (mantissa : Nat) (exponent : Int) : Binary64 :=
  if mantissa = Nat.pow 2 53 then ⟨Nat.pow 2 52, exponent + 1⟩ else ⟨mantissa, exponent⟩

/-- The magnitude nearest to a natural number that is below `2 ^ maxPower`. -/
def ofNat (n : Nat) : Binary64 :=
  if n < Nat.pow 2 53 then ⟨n, 0⟩
  else ofRounded (roundHalfEven n (Nat.pow 2 (n.log2 - 52))) (n.log2 - 52 : Nat)

/-- `num / (den * 2 ^ e)` as a quotient of natural numbers. -/
def scaled (num den : Nat) (e : Int) : Nat × Nat :=
  if 0 ≤ e then (num, den * Nat.pow 2 e.toNat) else (num * Nat.pow 2 (-e).toNat, den)

/-- The exponent at which the nearest magnitude to `num / den` has a full mantissa, or the least
one there is. -/
def exponentOf (num den : Nat) : Int :=
  let low := max ((num.log2 : Int) - den.log2 - 53) minExponent
  let (n, d) := scaled num den low
  if n / d < Nat.pow 2 53 then low else low + 1

/-- The magnitude nearest to `num / den`, or `none` if that is beyond the finite ones. -/
def ofRatio (num den : Nat) : Option Binary64 :=
  let e := exponentOf num den
  let (n, d) := scaled num den e
  let m := roundHalfEven n d
  if 0 ≤ e && Nat.pow 2 maxPower ≤ m * Nat.pow 2 e.toNat then none else some (ofRounded m e)

/-! ## The shortest decimal number -/

/-- A decimal number `digits * 10 ^ exponent`. -/
structure Decimal where
  digits : Nat
  exponent : Int
deriving DecidableEq, Repr, Inhabited

/-- The numbers that read back as a magnitude, in quarters of a unit. -/
structure Interval where
  low : Nat
  value : Nat
  high : Nat
  /-- The ends read back too. -/
  closed : Bool

def Interval.contains (i : Interval) (n : Nat) : Bool :=
  if i.closed then i.low ≤ n && n ≤ i.high else i.low < n && n < i.high

/-- The multiple of `step` in the interval that is nearest to the value, as a factor. -/
def Interval.nearestMultiple (i : Interval) (step : Nat) : Option Nat :=
  let below := i.value / step
  let above := below + 1
  let preferBelow := i.value - below * step ≤ above * step - i.value
  match i.contains (below * step), i.contains (above * step) with
  | true, true => some (if preferBelow then below else above)
  | true, false => some below
  | false, true => some above
  | false, false => none

/-- Tries the steps `4 * 10 ^ power` from the given power down to one unit. -/
def Interval.shortest (i : Interval) : Nat → Nat × Nat
  | 0 => (i.value / 4, 0)
  | power + 1 =>
    match i.nearestMultiple (4 * Nat.pow 10 (power + 1)) with
    | some factor => (factor, power + 1)
    | none => i.shortest power

/-- Decimal places that make every decimal of the magnitude whole. -/
def places (x : Binary64) : Nat := (-x.exponent).toNat

/-- A quarter of the distance to the next magnitude, in quarters of `10 ^ -places`. -/
def quarterGap (x : Binary64) : Nat :=
  if 0 ≤ x.exponent then Nat.pow 2 x.exponent.toNat else Nat.pow 5 x.places

/-- The magnitudes below are closer where the mantissa is a full power of two. -/
def interval (x : Binary64) : Interval :=
  let gap := x.quarterGap
  let value := 4 * x.mantissa * gap
  let narrow := x.mantissa == Nat.pow 2 52 && minExponent < x.exponent
  { low := value - (if narrow then gap else 2 * gap)
    value
    high := value + 2 * gap
    closed := x.mantissa % 2 == 0 }

/-- The shortest decimal number that reads back as the magnitude. -/
def shortest (x : Binary64) : Decimal :=
  if x.mantissa = 0 then ⟨0, 0⟩
  else
    let i := x.interval
    let (digits, power) := i.shortest (Nat.toDigits 10 i.value).length
    ⟨digits, (power : Int) - x.places⟩

/-! ## Positional text -/

/-- The digits of a decimal number around its point; there is no point where no digit follows. -/
def Decimal.positional (d : Decimal) : List Char :=
  let digits := Nat.toDigits 10 d.digits
  if 0 ≤ d.exponent then digits ++ List.replicate d.exponent.toNat '0'
  else
    let after := (-d.exponent).toNat
    let padded := List.replicate (after + 1 - digits.length) '0' ++ digits
    padded.take (padded.length - after) ++ '.' :: padded.drop (padded.length - after)

/-- Gives digits without a point a point and a zero. -/
def withPoint (digits : List Char) : List Char :=
  if digits.contains '.' then digits else digits ++ ['.', '0']

end Binary64

end AccountCensus.Number
