import AccountCensus.Toml.Reader

/-!
# TOML strings

A basic string stands between double quotes and has escapes; a literal string stands between
apostrophes and has none. Both have a form with tripled delimiters that may hold newlines. A
newline right behind the opening delimiter does not belong to the text, every other newline counts
as a line feed, and up to two delimiters may stand directly before the closing ones.
-/

namespace AccountCensus.Toml.Reader

/-! ## Escapes -/

def isHexDigit (c : Char) : Bool :=
  c.isDigit || ('a' ≤ c && c ≤ 'f') || ('A' ≤ c && c ≤ 'F')

def hexValue (c : Char) : Nat :=
  if c.isDigit then c.toNat - '0'.toNat
  else if 'a' ≤ c then c.toNat - 'a'.toNat + 10
  else c.toNat - 'A'.toNat + 10

/-- The number that digits of a base make. -/
def numeral (base : Nat) (digits : List Char) : Nat :=
  digits.foldl (fun n c => n * base + hexValue c) 0

/-- A character by `n` digits of its code point. -/
def codePoint (n : Nat) : Reader Char := do
  let code := numeral 16 (← times isHexDigit n)
  if h : code.isValidChar then pure (Char.ofNatAux code h) else failure

/-- An escape, from its backslash on. -/
def escape : Reader Char := do
  char '\\'
  match ← one fun _ => true with
  | 'b' => pure '\x08'
  | 't' => pure '\t'
  | 'n' => pure '\n'
  | 'f' => pure '\x0c'
  | 'r' => pure '\r'
  | '"' => pure '"'
  | '\\' => pure '\\'
  | 'u' => codePoint 4
  | 'U' => codePoint 8
  | _ => failure

/-! ## Strings on one line -/

def isBasicPlain (c : Char) : Bool := isPlain c && c != '"' && c != '\\'

def isLiteralPlain (c : Char) : Bool := isPlain c && c != '\''

def basicString : Reader String := do
  char '"'
  let text ← many (one isBasicPlain <|> escape)
  char '"'
  pure (String.ofList text)

def literalString : Reader String := do
  char '\''
  let text ← run isLiteralPlain
  char '\''
  pure (String.ofList text)

/-! ## Strings on several lines -/

/-- A newline, as the text has it. -/
def lineFeed : Reader (List Char) := do
  newline
  pure ['\n']

/-- A backslash at the end of a line joins it with the next one that is not blank. -/
def joinedLines : Reader (List Char) := do
  char '\\'
  blanks
  newline
  let _ ← many (skip isBlank <|> newline)
  pure []

/-- A delimiter that does not begin the closing ones. -/
def innerDelimiter (delimiter : Char) : Reader (List Char) := fun cs =>
  match cs with
  | a :: b :: c :: _ =>
    if a == delimiter && !(b == delimiter && c == delimiter) then some ([a], cs.tail) else none
  | _ => none

/-- The closing delimiters, and up to two before them that belong to the text. -/
def closing (delimiter : Char) : Reader (List Char) := do
  let count := ((← remaining).takeWhile (· == delimiter)).length
  let extra := List.replicate (min (count - 3) 2) delimiter
  exactly extra
  exactly [delimiter, delimiter, delimiter]
  pure extra

def multiLine (delimiter : Char) (piece : Reader (List Char)) : Reader String := do
  exactly [delimiter, delimiter, delimiter]
  let _ ← option newline
  let pieces ← many (piece <|> lineFeed <|> innerDelimiter delimiter)
  let extra ← closing delimiter
  pure (String.ofList (pieces.flatten ++ extra))

def multiLineBasicString : Reader String :=
  multiLine '"' ((one isBasicPlain).map ([·]) <|> joinedLines <|> escape.map ([·]))

def multiLineLiteralString : Reader String := multiLine '\'' ((one isLiteralPlain).map ([·]))

def string : Reader String :=
  multiLineBasicString <|> basicString <|> multiLineLiteralString <|> literalString

end AccountCensus.Toml.Reader
