import AccountCensus.Census.Outcome

/-!
# Scripted fetches

The accounts come from a source outside the service. Its behaviour is a script: each fetch takes
the next item, and when the script is used up a fetch finds no accounts, at once. A fetch is given
up when its time-out, rounded up to a millisecond, ends before its answer comes; an answer that
comes at that very millisecond still counts.
-/

namespace AccountCensus.Service

/-- What the source does with one fetch. -/
structure Fetch where
  /-- The answer, unless the fetch never ends. -/
  answer : Option Fetched
  /-- Milliseconds until the answer. -/
  delay : Nat
  /-- The fetch cancels its collector's token when it begins. -/
  cancels : Bool

/-- A fetch beyond the end of the script. -/
def Fetch.beyond : Fetch := ⟨some (.ok []), 0, false⟩

/-- How a fetch that nobody cancels ends. -/
structure Ending where
  /-- Milliseconds from the beginning. -/
  after : Nat
  /-- The answer came in time. -/
  answered : Bool
  fetched : Fetched

def Ending.timedOut (timeout : Duration) : Ending :=
  ⟨timeout.ceilMillis, false, .error (.timeout timeout)⟩

def Fetch.ending (timeout : Duration) (f : Fetch) : Ending :=
  match f.answer with
  | some fetched =>
    if f.delay ≤ timeout.ceilMillis then ⟨f.delay, true, fetched⟩ else .timedOut timeout
  | none => .timedOut timeout

end AccountCensus.Service
