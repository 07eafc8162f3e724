import AccountCensus.Journal

/-!
# The life of the web endpoint

The endpoint listens on a port from its start until its token is cancelled. If it cannot have the
port it ends at once, and the program goes on without it.
-/

namespace AccountCensus.Program

structure Endpoint where
  port : Nat
  isListening : Bool
deriving DecidableEq, Repr

namespace Endpoint

/-- Starts an endpoint, given the error that keeps it from the port if there is one. -/
def start (port : Nat) (refusal? : Option String) : Endpoint × List Event :=
  match refusal? with
  | none => (⟨port, true⟩, [.listening port])
  | some error => (⟨port, false⟩, [.listening port, .bindFailed port error])

/-- Its token was cancelled. -/
def cancel (e : Endpoint) : Endpoint := { e with isListening := false }

end Endpoint

/-- The error for a port that someone else has. -/
def portTaken : String := "Address already in use (os error 98)"

end AccountCensus.Program
