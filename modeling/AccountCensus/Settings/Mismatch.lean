import AccountCensus.Text.Quoted
import AccountCensus.Toml.Value

/-!
# Values of the wrong shape

A document can be valid and still hold a value that a setting cannot take. `Mismatch` tells what
was found where and what was wanted, and `excerpt` shows the place: its line and column, the line
itself, and marks under it.
-/

namespace AccountCensus

namespace Toml

/-- A float in positional notation, always with a point. -/
def Real.text : Real → String
  | .finite negative magnitude =>
    let digits := Number.Binary64.withPoint magnitude.shortest.positional
    String.ofList (if negative then '-' :: digits else digits)
  | .infinite negative => if negative then "-inf" else "inf"
  | .nan => "NaN"

end Toml

namespace Settings

open Toml (Span Value)

/-- What a setting or a section wants. -/
inductive Wanted where
  | text
  | port
  | seconds
  | server
  | database
  | stats
deriving DecidableEq, Repr

def Wanted.label : Wanted → String
  | text => "a string"
  | port => "u16"
  | seconds => "u64"
  | server => "struct ServerConfig"
  | database => "struct DatabaseConfig"
  | stats => "struct StatsConfig"

/-- What was found instead. -/
inductive Found where
  | kind (label : String)
  | outOfRange (value : Int)
deriving DecidableEq, Repr

def integerLabel (i : Int) : String := "integer `" ++ toString i ++ "`"

/-- A value in messages: its kind, and the value itself if it is a simple one. -/
def valueLabel : Value → String
  | .string s => "string " ++ Text.quoted s
  | .integer i => integerLabel i
  | .real x => "floating point `" ++ x.text ++ "`"
  | .boolean b => "boolean `" ++ (if b then "true" else "false") ++ "`"
  | .array _ => "sequence"
  | .moment | .table _ => "map"

structure Mismatch where
  span : Span
  found : Found
  wanted : Wanted
deriving DecidableEq, Repr

/-- A value of the wrong kind. -/
def Mismatch.ofValue (span : Span) (v : Value) (wanted : Wanted) : Mismatch :=
  ⟨span, .kind (valueLabel v), wanted⟩

def Mismatch.cause (m : Mismatch) : String :=
  match m.found with
  | .kind label => "invalid type: " ++ label ++ ", expected " ++ m.wanted.label
  | .outOfRange i => "invalid value: " ++ integerLabel i ++ ", expected " ++ m.wanted.label

/-! ## Excerpts -/

/-- The bytes that characters take in a file. -/
def byteCount (cs : List Char) : Nat := cs.foldr (fun c n => c.utf8Size + n) 0

def spaces (n : Nat) : String := String.ofList (List.replicate n ' ')

def carets (n : Nat) : String := String.ofList (List.replicate n '^')

/-- Where a place begins: the number of its line, the characters before it on its line, and the
line. -/
def position (text : List Char) (span : Span) : Nat × Nat × List Char :=
  let before := text.take (text.length - span.left)
  let behind := text.drop (text.length - span.left)
  let onLine := (before.reverse.takeWhile (· != '\n')).reverse
  (before.count '\n' + 1, onLine.length, onLine ++ behind.takeWhile (· != '\n'))

/-- The place in the text and its cause. There is a mark per byte of the place, but none beyond
the line, and at least one. -/
def Mismatch.excerpt (text : String) (m : Mismatch) : String :=
  let (number, column, line) := position text.toList m.span
  let source := (text.toList.drop (text.length - m.span.left)).take (m.span.left - m.span.rest)
  let marks := max 1 (min (byteCount source) (byteCount line - column))
  let gutter := spaces ((toString number).length + 1)
  "TOML parse error at line " ++ toString number ++ ", column " ++ toString (column + 1) ++ "\n" ++
    gutter ++ "|\n" ++
    toString number ++ " | " ++ String.ofList line ++ "\n" ++
    gutter ++ "|" ++ spaces (column + 1) ++ carets marks ++ "\n" ++
    m.cause ++ "\n"

end Settings

end AccountCensus
