import AccountCensus.Number.Significant
import AccountCensus.Store.Error

/-!
# Values of columns

A column of texts keeps a text as its bytes, which need not be UTF-8, and takes a number as its
text. Binary data stays what it is and cannot be read as a text; a missing value reads as the
empty text.
-/

namespace AccountCensus.Store

inductive Cell where
  | missing
  | text (bytes : ByteArray)
  | blob

namespace Cell

instance : DecidableEq Cell
  | missing, missing => .isTrue rfl
  | blob, blob => .isTrue rfl
  | text a, text b =>
    match ByteArray.instDecidableEq a b with
    | .isTrue h => .isTrue (congrArg text h)
    | .isFalse h => .isFalse fun heq => h (text.inj heq)
  | missing, text _ | missing, blob | text _, missing | text _, blob | blob, missing
  | blob, text _ => .isFalse nofun

def ofString (s : String) : Cell := .text s.toUTF8

def ofInteger (i : Int) : Cell := .ofString (toString i)

/-- A number with a fraction keeps up to 15 significant digits; zero has no sign. -/
def ofReal (negative : Bool) (x : Number.Binary64) : Cell :=
  let digits := x.general 15
  .ofString (String.ofList (if negative && x.mantissa != 0 then '-' :: digits else digits))

def decode : Cell → Except DecodingFault String
  | missing => .ok ""
  | text bytes => (Text.Utf8.decode bytes).mapError .notText
  | blob => .error .blob

end Cell

end AccountCensus.Store
