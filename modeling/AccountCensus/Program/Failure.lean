import AccountCensus.Settings.Load
import AccountCensus.Store.Error

/-!
# Why the program could not start

The program tells the failure on its error output, and, where another error lies below it, that
one too, indented.
-/

namespace AccountCensus.Program

inductive Failure where
  | settings (error : Settings.LoadError)
  | store (error : StoreError)

namespace Failure

def message : Failure → String
  | settings e => e.message
  | store e => e.message

/-- The error that lies below. -/
def source? : Failure → Option String
  | settings e => e.source?
  | store _ => none

/-- Four blanks before each line. -/
def indent (s : String) : String :=
  String.intercalate "\n" ((s.splitOn "\n").map fun line => "    " ++ line)

/-- What stands on the error output. -/
def complaint (f : Failure) : String :=
  "Error: " ++ f.message ++
    f.source?.elim "" (fun source => "\n\nCaused by:\n" ++ indent source) ++ "\n"

end Failure

end AccountCensus.Program
