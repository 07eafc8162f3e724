import AccountCensus.Settings.Decode
import AccountCensus.Settings.Validation
import AccountCensus.Text.Utf8
import AccountCensus.Toml.Document

/-!
# Loading settings

Settings come from the text of a TOML document, and the text from a file. A file that is no UTF-8
is not read as text, whatever else is wrong with it.
-/

namespace AccountCensus.Settings

/-- Why a file could not be read as text. -/
inductive FileError where
  | notFound
  | isDirectory
  | notDirectory
  | notText
deriving DecidableEq, Repr

def FileError.message : FileError → String
  | notFound => "No such file or directory (os error 2)"
  | isDirectory => "Is a directory (os error 21)"
  | notDirectory => "Not a directory (os error 20)"
  | notText => "stream did not contain valid UTF-8"

/-- Why there are no settings. -/
inductive LoadError where
  | file (error : FileError)
  /-- The text is no document. -/
  | syntactic
  /-- The document has a value of the wrong shape. -/
  | shape (text : String) (mismatch : Mismatch)
  | invalid (violations : List Violation)
deriving DecidableEq, Repr

namespace LoadError

/-- The error that lies below, if there is one. -/
def source? : LoadError → Option String
  | file e => some e.message
  | syntactic => some "TOML parse error"
  | shape text m => some (m.excerpt text)
  | invalid _ => none

def message : LoadError → String
  | file e => "failed to read config file: " ++ e.message
  | syntactic => "failed to parse config: TOML parse error"
  | shape text m => "failed to parse config: " ++ m.excerpt text
  | invalid vs => "invalid configuration: " ++ String.intercalate "; " (vs.map Violation.message)

end LoadError

/-- The settings in the text of a document, given the paths that exist. -/
def parse (existing : String → Bool) (text : String) : Except LoadError Settings :=
  match Toml.parse text with
  | none => .error .syntactic
  | some entries =>
    match ofEntries entries with
    | .error m => .error (.shape text m)
    | .ok s => (validate existing s).mapError .invalid

/-- The text of a file. -/
def decode (bytes : ByteArray) : Except FileError String :=
  (Text.Utf8.decode bytes).mapError fun _ => .notText

/-- The settings in a file with the given bytes. -/
def load (existing : String → Bool) (bytes : ByteArray) : Except LoadError Settings :=
  match decode bytes with
  | .error e => .error (.file e)
  | .ok text => parse existing text

end AccountCensus.Settings
