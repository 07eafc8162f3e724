import AccountCensus.Toml.Text

/-!
# TOML numbers

Digits may be grouped by single underscores between them. Integers are those of 64 bits with a
sign. A floating-point literal stands for the nearest 64-bit float; one that is beyond the
greatest float is refused, and one below the least float is minus infinity.
-/

namespace AccountCensus.Toml.Reader

/-- Digits, with underscores between them that do not count. -/
def digits (p : Char → Bool) : Reader (List Char) := do
  let first ← one p
  let others ← many (one p <|> (do char '_'; one p))
  pure (first :: others)

/-- A sign, and whether it is a minus. -/
def sign : Reader Bool := do
  match ← option (one fun c => c == '+' || c == '-') with
  | some c => pure (c == '-')
  | none => pure false

/-- A sign and digits of which the first is no zero, or a single digit. -/
def signedDigits : Reader (Bool × List Char) := do
  let negative ← sign
  match ← peek with
  | '0' => pure (negative, [← one Char.isDigit])
  | _ => pure (negative, ← digits Char.isDigit)

/-! ## Integers -/

def isOctalDigit (c : Char) : Bool := '0' ≤ c && c ≤ '7'

def isBinaryDigit (c : Char) : Bool := c == '0' || c == '1'

def integerIn (base : Nat) (mark : Char) (p : Char → Bool) : Reader Int := do
  exactly ['0', mark]
  pure (numeral base (← digits p))

def decimalInteger : Reader Int := do
  let (negative, ds) ← signedDigits
  let n : Int := numeral 10 ds
  pure (if negative then -n else n)

def integer : Reader Int := do
  let n ← integerIn 16 'x' isHexDigit <|> integerIn 8 'o' isOctalDigit
    <|> integerIn 2 'b' isBinaryDigit <|> decimalInteger
  if -(Nat.pow 2 63 : Int) ≤ n && n < Nat.pow 2 63 then pure n else failure

/-! ## Floating-point numbers -/

/-- The float nearest to `digits * 10 ^ exponent`. Far beyond or below all floats it is known
without the power. -/
def nearestReal (negative : Bool) (digits : Nat) (exponent : Int) : Real :=
  let order : Int := (Nat.toDigits 10 digits).length + exponent
  if digits = 0 || order < -400 then .finite negative ⟨0, 0⟩
  else if 400 < order then .infinite negative
  else
    let ratio :=
      if 0 ≤ exponent then Number.Binary64.ofRatio (digits * Nat.pow 10 exponent.toNat) 1
      else Number.Binary64.ofRatio digits (Nat.pow 10 (-exponent).toNat)
    match ratio with
    | some magnitude => .finite negative magnitude
    | none => .infinite negative

def fraction : Reader (List Char) := do
  char '.'
  digits Char.isDigit

def exponent : Reader Int := do
  skip fun c => c == 'e' || c == 'E'
  let negative ← sign
  let n : Int := numeral 10 (← digits Char.isDigit)
  pure (if negative then -n else n)

def fractionAndExponent : Reader (List Char × Int) := do
  let parts ← fraction
  let power ← option exponent
  pure (parts, power.getD 0)

def decimalReal : Reader Real := do
  let (negative, whole) ← signedDigits
  let (parts, power) ← exponent.map ([], ·) <|> fractionAndExponent
  match nearestReal negative (numeral 10 (whole ++ parts)) (power - parts.length) with
  | .infinite false => failure
  | x => pure x

def specialReal : Reader Real := do
  let negative ← sign
  (exactly ['i', 'n', 'f']).map (fun _ => .infinite negative)
    <|> (exactly ['n', 'a', 'n']).map fun _ => .nan

def real : Reader Real := decimalReal <|> specialReal

end AccountCensus.Toml.Reader
