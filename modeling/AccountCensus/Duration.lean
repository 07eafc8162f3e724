/-!
# Durations

A duration is a whole number of nanoseconds. Its text takes the largest unit that it reaches
(seconds, milliseconds, microseconds, nanoseconds) and writes the exact value in it, without
zeros at the end of the fraction: `1.5s`, `10s`, `1.000001ms`, `0ns`.
-/

namespace AccountCensus

structure Duration where
  nanos : Nat
deriving DecidableEq, Repr, Inhabited

namespace Duration

/-- Seconds and nanoseconds together. -/
def ofSeconds (seconds nanos : Nat) : Duration := ⟨seconds * 1000000000 + nanos⟩

def ofMillis (millis : Nat) : Duration := ⟨millis * 1000000⟩

/-- The whole seconds of a duration. -/
def seconds (d : Duration) : Nat := d.nanos / 1000000000

/-- The least number of milliseconds that is not shorter. -/
def ceilMillis (d : Duration) : Nat := (d.nanos + 999999) / 1000000

/-! ## Text -/

/-- Drops the zeros at the end. -/
def trimZeros (digits : List Char) : List Char := (digits.reverse.dropWhile (· == '0')).reverse

/-- The digits of `n`, with zeros in front up to the given width. -/
def paddedDigits (width n : Nat) : List Char :=
  let digits := Nat.toDigits 10 n
  List.replicate (width - digits.length) '0' ++ digits

/-- `n` units of which `10 ^ places` make a whole, as an exact decimal number. -/
def decimal (places n : Nat) : List Char :=
  let whole := Nat.toDigits 10 (n / Nat.pow 10 places)
  match trimZeros (paddedDigits places (n % Nat.pow 10 places)) with
  | [] => whole
  | fraction => whole ++ '.' :: fraction

/-- Decimal places and name of the largest unit that the duration reaches. -/
def unit (d : Duration) : Nat × String :=
  if 1000000000 ≤ d.nanos then (9, "s")
  else if 1000000 ≤ d.nanos then (6, "ms")
  else if 1000 ≤ d.nanos then (3, "µs")
  else (0, "ns")

def text (d : Duration) : String := String.ofList (decimal d.unit.1 d.nanos) ++ d.unit.2

end Duration

end AccountCensus
