import AccountCensus.Store.Error

/-!
# A failed census

A census fails only when its accounts cannot be fetched. The code in log lines tells a time-out
from every other cause.
-/

namespace AccountCensus

/-- The accounts could not be fetched. -/
structure CensusError where
  cause : StoreError
deriving DecidableEq, Repr

namespace CensusError

def message (e : CensusError) : String := "failed to fetch accounts: " ++ e.cause.message

def code (e : CensusError) : String :=
  match e.cause with
  | .timeout _ => "fetch_timeout"
  | _ => "fetch_failed"

end CensusError

end AccountCensus
