import AccountCensus.Toml.Value

/-!
# Readers

A reader takes a value off the front of a text, or refuses it. Refusals carry no reason: a text
that is no TOML document is refused as a whole.
-/

namespace AccountCensus.Toml

/-- Takes a value off the front of a text and leaves the rest. -/
abbrev Reader := StateT (List Char) Option

namespace Reader

/-- The text that is left. -/
def remaining : Reader (List Char) := fun cs => some (cs, cs)

def atEnd : Reader Unit := fun cs => if cs.isEmpty then some ((), cs) else none

/-- The next character, left where it is. -/
def peek : Reader Char := fun cs =>
  match cs with
  | [] => none
  | c :: _ => some (c, cs)

/-- One character of a class. -/
def one (p : Char → Bool) : Reader Char := fun cs =>
  match cs with
  | [] => none
  | c :: rest => if p c then some (c, rest) else none

/-- Passes over one character of a class. -/
def skip (p : Char → Bool) : Reader Unit := do
  let _ ← one p

def char (c : Char) : Reader Unit := skip (· == c)

/-- The given characters. -/
def exactly : List Char → Reader Unit
  | [] => pure ()
  | c :: cs => do
    char c
    exactly cs

/-- As many characters of a class as there are. -/
def run (p : Char → Bool) : Reader (List Char) := fun cs => some (cs.takeWhile p, cs.dropWhile p)

/-- Exactly `n` characters of a class. -/
def times (p : Char → Bool) : Nat → Reader (List Char)
  | 0 => pure []
  | n + 1 => do
    let c ← one p
    let cs ← times p n
    pure (c :: cs)

/-- A value if there is one. -/
def option {α : Type} (r : Reader α) : Reader (Option α) := fun cs =>
  match r cs with
  | some (a, rest) => some (some a, rest)
  | none => some (none, cs)

/-- At most `fuel` values, one after the other. -/
def upTo {α : Type} (r : Reader α) : Nat → List Char → List α × List Char
  | 0, cs => ([], cs)
  | fuel + 1, cs =>
    match r cs with
    | none => ([], cs)
    | some (a, rest) =>
      let (as, rest) := upTo r fuel rest
      (a :: as, rest)

/-- As many values as there are. Each takes at least one character. -/
def many {α : Type} (r : Reader α) : Reader (List α) := fun cs => some (upTo r cs.length cs)

/-- Values with a separator between them, at least one. -/
def separated {α : Type} (r : Reader α) (separator : Reader Unit) : Reader (List α) := do
  let first ← r
  let others ← many do
    separator
    r
  pure (first :: others)

/-- A value with its place in the text. -/
def placed {α : Type} (r : Reader α) : Reader (Span × α) := do
  let before ← remaining
  let a ← r
  let after ← remaining
  pure (⟨before.length, after.length⟩, a)

/-! ## Blanks and comments -/

def isBlank (c : Char) : Bool := c == ' ' || c == '\t'

def blanks : Reader Unit := do
  let _ ← run isBlank

/-- A line feed, or a carriage return and a line feed. -/
def newline : Reader Unit := char '\n' <|> exactly ['\r', '\n']

/-- A character that comments and texts may hold as it is: no control character but the tab. -/
def isPlain (c : Char) : Bool := c == '\t' || (' ' ≤ c && c != '\x7f')

def comment : Reader Unit := do
  char '#'
  let _ ← run isPlain

/-- The end of a line: blanks, a comment, and a newline or the end of the text. -/
def lineEnd : Reader Unit := do
  blanks
  let _ ← option comment
  newline <|> atEnd

/-- What may stand between the elements of an array: blanks, newlines, and comments that end with
their line. -/
def gap : Reader Unit := do
  let _ ← many (skip isBlank <|> newline <|> (do comment; newline))

end Reader

end AccountCensus.Toml
