import AccountCensus.Service.Fetch

/-!
# What happens in a service

The history of a service lists what happened to its collectors, each entry with its time and with
the loop that it happened to. The journal and the fetch marks that observers see are functions of
it.
-/

namespace AccountCensus.Service

inductive Happening where
  | loopStarted (interval : Duration)
  | loopStopped
  | fetchBegan (fetch : Fetch)
  | fetchEnded (answered : Bool)
  | censusEnded (driver : Census.Driver) (fetched : Fetched)

/-- What an observer of a source sees of its fetches. -/
inductive Mark where
  | fetch
  | done
  | abandoned
deriving DecidableEq, Repr

namespace Happening

def mark? : Happening → Option Mark
  | fetchBegan _ => some .fetch
  | fetchEnded true => some .done
  | fetchEnded false => some .abandoned
  | _ => none

def events : Happening → List Event
  | loopStarted interval => [.loopStarted interval.seconds]
  | loopStopped => [.loopStopped]
  | censusEnded driver fetched => Census.events driver fetched
  | _ => []

/-- The end of a census publishes its tally. -/
def publish (m : Gauge.Metrics) : Happening → Gauge.Metrics
  | censusEnded _ fetched => Census.publish m fetched
  | _ => m

end Happening

/-- The two entries at the end of a fetch that ended by itself. -/
def Ending.happenings (driver : Census.Driver) (e : Ending) : List Happening :=
  [.fetchEnded e.answered, .censusEnded driver e.fetched]

/-- Something that happened to a collector at a time. -/
structure Record where
  time : Nat
  collector : Nat
  /-- None for what belongs to a census in the foreground. -/
  loop : Option Nat
  happening : Happening

/-- The fetch marks of one collector, with their times. -/
def marks (collector : Nat) (records : List Record) : List (Nat × Mark) :=
  records.filterMap fun r =>
    if r.collector = collector then r.happening.mark?.map (r.time, ·) else none

def events (records : List Record) : List Event := records.flatMap fun r => r.happening.events

end AccountCensus.Service
