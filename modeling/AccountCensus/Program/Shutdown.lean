import AccountCensus.Journal

/-!
# Shutdown

The program waits for a signal and cancels its token when that comes. If it cannot wait for
signals, the token is left alone.
-/

namespace AccountCensus.Program

/-- What waiting for the signal ended in. -/
inductive Signal where
  | received
  | lost (error : String)
deriving DecidableEq, Repr

namespace Signal

/-- The token is cancelled. -/
def cancels : Signal → Bool
  | received => true
  | lost _ => false

def events : Signal → List Event
  | received => [.shutdownRequested]
  | lost error => [.shutdownSignalLost error]

end Signal

end AccountCensus.Program
