/-!
# Rounding of quotients

`roundHalfEven num den` is the whole number nearest to `num / den`; of two equally near ones it
is the even one.
-/

namespace AccountCensus.Number

def roundHalfEven (num den : Nat) : Nat :=
  let q := num / den
  let twice := 2 * (num % den)
  if den < twice then q + 1
  else if twice < den then q
  else q + q % 2

end AccountCensus.Number
