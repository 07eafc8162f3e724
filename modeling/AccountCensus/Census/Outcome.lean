import AccountCensus.Journal

/-!
# The outcome of a census

A census fetches the accounts, tallies them and publishes the tally in the login gauges. It is
driven by the collection loop, by a direct call, or by a request for a report; all of them publish
in the same way and differ only in what the journal says about a failure: the loop warns, a
request for a report logs an error, and a direct call leaves the failure to its caller.
-/

namespace AccountCensus

/-- What a fetch gave. -/
abbrev Fetched := Except StoreError (List Account)

namespace Census

/-- Who drives a census. -/
inductive Driver where
  | loop
  | call
  | report
deriving DecidableEq, Repr

/-- The tally of the fetched accounts, or why there is none. -/
def result : Fetched → Except CensusError Tally
  | .ok accounts => .ok (tally accounts)
  | .error cause => .error ⟨cause⟩

/-- Publishes the tally of the fetched accounts. A failed fetch leaves the gauges as they are. -/
def publish (m : Gauge.Metrics) : Fetched → Gauge.Metrics
  | .ok accounts => m.publish (tally accounts)
  | .error _ => m

/-- What the journal says about the end of a census. -/
def events (driver : Driver) : Fetched → List Event
  | .ok accounts => [.collected accounts.length (tally accounts)]
  | .error cause =>
    match driver with
    | .loop => [.loopCensusFailed ⟨cause⟩]
    | .call => []
    | .report => [.requestedCensusFailed ⟨cause⟩]

end Census

end AccountCensus
