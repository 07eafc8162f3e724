import AccountCensus.Toml.Moment
import AccountCensus.Toml.Node

/-!
# The statements of a document

A document is a list of assignments, some of them before and the others behind headers. Arrays and
inline tables may be nested up to a depth of 79, and a key has at most 79 parts.
-/

namespace AccountCensus.Toml

namespace Reader

/-- How deep arrays and inline tables may be nested. -/
def maxDepth : Nat := 79

/-! ## Keys -/

def isBareKey (c : Char) : Bool := c.isAlphanum || c == '_' || c == '-'

def bareKey : Reader String := do
  let first ← one isBareKey
  let others ← run isBareKey
  pure (String.ofList (first :: others))

def key : Reader Key := do
  let (span, name) ← placed (basicString <|> literalString <|> bareKey)
  pure ⟨name, span⟩

/-- The parts of a dotted key before the last one, and the last one. -/
def dottedKey : Reader (List Key × Key) := do
  let parts ← separated
    (do
      blanks
      let k ← key
      blanks
      pure k)
    (char '.')
  if maxDepth < parts.length then failure
  else
    match parts.getLast? with
    | some last => pure (parts.dropLast, last)
    | none => failure

/-! ## Values -/

def boolean : Reader Bool :=
  (exactly ['t', 'r', 'u', 'e']).map (fun _ => true)
    <|> (exactly ['f', 'a', 'l', 's', 'e']).map fun _ => false

def scalar : Reader Value :=
  string.map .string
  <|> moment.map (fun _ => .moment)
  <|> real.map .real
  <|> integer.map .integer
  <|> boolean.map .boolean

def assignment (value : Reader Value) : Reader Assignment := do
  let (path, key) ← dottedKey
  char '='
  blanks
  let (span, value) ← placed value
  pure { path, key, span, value }

/-- An array, whose elements may be spread over lines. -/
def array (value : Reader Value) : Reader Value := do
  char '['
  let elements ← option <| separated
    (do
      gap
      let element ← placed value
      gap
      pure element)
    (char ',')
  if elements.isSome then
    let _ ← option (char ',')
  gap
  char ']'
  pure (.array (elements.getD []))

/-- A table on one line. -/
def inlineTable (value : Reader Value) : Reader Value := do
  char '\x7b'
  let assignments ← option <| separated
    (do
      let a ← assignment value
      blanks
      pure a)
    (char ',')
  blanks
  char '\x7d'
  match assignAll [] (assignments.getD []) with
  | some es => pure (.table (placedEntries es))
  | none => failure

/-- A value in which arrays and inline tables are nested to at most the given depth. -/
def value : Nat → Reader Value
  | 0 => scalar
  | depth + 1 => scalar <|> array (value depth) <|> inlineTable (value depth)

/-! ## Lines -/

inductive Header where
  /-- The header of a table. -/
  | table
  /-- The header of the next element of an array of tables. -/
  | element
deriving DecidableEq, Repr, Inhabited

def tableHeader : Reader (List Key × Key) := do
  char '['
  let path ← dottedKey
  char ']'
  pure path

def elementHeader : Reader (List Key × Key) := do
  exactly ['[', '[']
  let path ← dottedKey
  exactly [']', ']']
  pure path

inductive Statement where
  | blank
  | header (kind : Header) (span : Span) (path : List Key) (key : Key)
  | assignment (a : Assignment)
deriving Inhabited

def header : Reader Statement := do
  let (span, kind, path, key) ← placed <|
    elementHeader.map (Header.element, ·) <|> tableHeader.map (Header.table, ·)
  pure (.header kind span path key)

/-- A line that holds nothing but blanks and a comment. -/
def emptyLine : Reader Unit := (do comment; newline <|> atEnd) <|> newline

/-- A line that holds a header or an assignment. -/
def fullLine : Reader Statement := do
  let s ← header <|> (assignment (value maxDepth)).map .assignment
  lineEnd
  pure s

/-- One line, and the blanks that the next one begins with. -/
def statement : Reader Statement := do
  let s ← emptyLine.map (fun _ => .blank) <|> fullLine
  blanks
  pure s

def statements : Reader (List Statement) := do
  let _ ← option (char '\ufeff')
  blanks
  let ss ← many statement
  atEnd
  pure ss

end Reader

end AccountCensus.Toml
