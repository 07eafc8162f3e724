import AccountCensus.Number.Binary64

/-!
# Numbers with a limited precision

`significant n` is the decimal number of at most `n` digits that is nearest to a magnitude; a half
goes up. `general n` writes it with a point: in positional notation if its first digit stands for
a power of ten from `10 ^ -4` to below `10 ^ n`, and with an exponent of at least two digits
otherwise.
-/

namespace AccountCensus.Number

namespace Binary64

def significant (n : Nat) (x : Binary64) : Decimal :=
  let whole := x.mantissa * x.quarterGap
  let surplus := (Nat.toDigits 10 whole).length - n
  let unit := Nat.pow 10 surplus
  ⟨(whole + unit / 2) / unit, (surplus : Int) - x.places⟩

/-- The same number without zeros at the end of its digits. -/
def Decimal.trim (d : Decimal) : Decimal :=
  let digits := Nat.toDigits 10 d.digits
  let kept := (digits.reverse.dropWhile (· == '0')).reverse
  ⟨Nat.ofDigitChars 10 kept 0, d.exponent + (digits.length - kept.length : Nat)⟩

/-- The power of ten that the first digit stands for. -/
def Decimal.order (d : Decimal) : Int := (Nat.toDigits 10 d.digits).length - 1 + d.exponent

/-- One digit, a point, the other digits, and the exponent. -/
def Decimal.scientific (d : Decimal) : List Char :=
  let order := Nat.toDigits 10 d.order.natAbs
  let coefficient : Decimal := ⟨d.digits, d.exponent - d.order⟩
  withPoint coefficient.positional ++ 'e' :: (if d.order < 0 then '-' else '+') ::
    List.replicate (2 - order.length) '0' ++ order

def general (n : Nat) (x : Binary64) : List Char :=
  let d := (x.significant n).trim
  if x.mantissa = 0 then ['0', '.', '0']
  else if -4 ≤ d.order && d.order < n then withPoint d.positional
  else d.scientific

end Binary64

end AccountCensus.Number
