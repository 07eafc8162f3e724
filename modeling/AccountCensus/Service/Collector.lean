import AccountCensus.Service.Loop

/-!
# Collectors

A collector makes censuses of one source. It has a token that cancels its loops, and usually one
loop; a loop that is started while another one runs takes its place for `join`, and the other one
goes on. `wake` lets one loop do its next thing: begin to run, serve a tick, end a fetch, or stop.
-/

namespace AccountCensus.Service

structure Collector where
  interval : Duration
  timeout : Duration
  /-- What the source will do with the coming fetches. -/
  script : List Fetch
  /-- The token is cancelled. -/
  cancelled : Bool := false
  /-- In the order of their starts. -/
  loops : List Loop := []
  /-- The loop that `join` waits for. -/
  joinable : Option Nat := none

namespace Collector

def setPhase (c : Collector) (k : Nat) (phase : Phase) : Collector :=
  { c with loops := c.loops.modify k fun l => { l with phase } }

/-- Cancels the token. -/
def cancel (c : Collector) : Collector :=
  { c with cancelled := true, loops := c.loops.map fun l => { l with cancelled := true } }

/-- Starts a loop. A fresh one gets a new token if the old one is cancelled and no loop waits to
be joined. -/
def start (c : Collector) (fresh : Bool) : Collector :=
  let cancelled := c.cancelled && !(fresh && c.joinable.isNone)
  { c with
    cancelled
    loops := c.loops ++ [⟨.spawned, cancelled⟩]
    joinable := some c.loops.length }

/-- Takes the next fetch of the script. -/
def beginFetch (c : Collector) : Collector × Fetch :=
  let fetch := c.script.headD .beyond
  let c := { c with script := c.script.tail }
  (if fetch.cancels then c.cancel else c, fetch)

/-- Serves a tick: the loop begins a census, and ends it if the fetch ends at once. -/
def serveTick (c : Collector) (k due now : Nat) : Collector × List Happening :=
  let next := nextDue c.interval due now
  let (c, fetch) := c.beginFetch
  let ending := fetch.ending c.timeout
  if ending.after = 0 then
    (c.setPhase k (.waiting next), .fetchBegan fetch :: ending.happenings .loop)
  else (c.setPhase k (.fetching next (now + ending.after) ending), [.fetchBegan fetch])

/-- Lets loop `k` do its next thing at millisecond `now`. -/
def wake (c : Collector) (k now : Nat) : Collector × List Happening :=
  match c.loops[k]? with
  | none => (c, [])
  | some l =>
    match l.phase with
    | .spawned =>
      if c.interval.nanos = 0 then (c.setPhase k .panicked, [.loopStarted c.interval])
      else (c.setPhase k (.waiting (now * nanosPerMilli)), [.loopStarted c.interval])
    | .waiting due =>
      if l.cancelled then (c.setPhase k .stopped, [.loopStopped]) else c.serveTick k due now
    | .fetching due _ ending =>
      if l.cancelled then (c.setPhase k .stopped, [.fetchEnded false, .loopStopped])
      else (c.setPhase k (.waiting due), ending.happenings .loop)
    | .stopped | .panicked => (c, [])

/-- The earlier of two wake times, the first of equal ones. -/
def earlier (a b : Option (Nat × Nat)) : Option (Nat × Nat) :=
  match a, b with
  | none, b => b
  | a, none => a
  | some (t, i), some (u, j) => if u < t then some (u, j) else some (t, i)

/-- The next wake time among loops that are counted from `k` on, and the loop. -/
def nextAmong (now k : Nat) : List Loop → Option (Nat × Nat)
  | [] => none
  | l :: ls => earlier ((l.wakeTime? now).map (·, k)) (nextAmong now (k + 1) ls)

/-- The time and the loop of the collector's next wake. -/
def next? (c : Collector) (now : Nat) : Option (Nat × Nat) := nextAmong now 0 c.loops

def rank (c : Collector) (horizon : Nat) : Nat :=
  c.loops.foldr (fun l n => l.rank horizon + n) 0

/-- The loop that `join` waits for. -/
def joined? (c : Collector) : Option Loop := c.joinable.bind fun k => c.loops[k]?

/-- There is a loop to join, and it has not ended. -/
def isRunning (c : Collector) : Bool := c.joined?.any Loop.isLive

end Collector

end AccountCensus.Service
