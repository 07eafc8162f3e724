import AccountCensus.Number.Binary64

/-!
# TOML values

The values of a configuration document, each with the place where the document has it. A place is
kept as the numbers of characters from its two ends to the end of the text, so that a reader that
only knows what is left of the text can note it.
-/

namespace AccountCensus.Toml

/-- A piece of a text. -/
structure Span where
  /-- Characters from the beginning of the piece to the end of the text. -/
  left : Nat
  /-- Characters behind the piece. -/
  rest : Nat
deriving DecidableEq, Repr, Inhabited

/-- The value of a floating-point literal. -/
inductive Real where
  | finite (negative : Bool) (magnitude : Number.Binary64)
  | infinite (negative : Bool)
  | nan
deriving DecidableEq, Repr

inductive Value where
  | string (text : String)
  | integer (value : Int)
  | real (value : Real)
  | boolean (value : Bool)
  /-- A date, a time, or both. -/
  | moment
  | array (elements : List (Span × Value))
  /-- The entries in the order in which the document has them. A table that several lines make is
  placed at its header, or at the key that first names it. -/
  | table (entries : List (String × Span × Value))
deriving Repr, Inhabited

end AccountCensus.Toml
