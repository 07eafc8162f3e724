import AccountCensus.Service.Collector

/-!
# The state of a service

A service is a clock, collectors that publish in the same gauges, and the history of what happened
so far. Time passes by letting the loop with the earliest wake time do its next thing, again and
again, up to a deadline that is not itself included; of loops that wake at the same millisecond
the one that was started or cancelled first is first.
-/

namespace AccountCensus

structure Service where
  /-- The clock, in milliseconds. -/
  time : Nat := 0
  collectors : List Service.Collector
  /-- The collectors in the order in which equal wake times are served. -/
  turns : List Nat
  metrics : Gauge.Metrics
  /-- Latest entry first. -/
  history : List Service.Record := []

namespace Service

/-- Notes what happened to collector `c`, and lets the gauges follow. -/
def note (s : Service) (c : Nat) (loop : Option Nat) (h : Happening) : Service :=
  { s with metrics := h.publish s.metrics, history := ⟨s.time, c, loop, h⟩ :: s.history }

def noteAll (s : Service) (c : Nat) (loop : Option Nat) (hs : List Happening) : Service :=
  hs.foldl (·.note c loop ·) s

/-- Puts collector `c` behind all others for equal wake times. -/
def postpone (s : Service) (c : Nat) : Service := { s with turns := s.turns.erase c ++ [c] }

/-- Collector `c` already waits to be served at the present time. -/
def isQueued (s : Service) (c : Nat) : Bool :=
  (s.collectors[c]?.bind (·.next? s.time)).any (·.1 == s.time)

/-- A change of collector `c` that wakes its loop. -/
def rouse (s : Service) (c : Nat) (f : Collector → Collector) : Service :=
  if c < s.collectors.length then
    let changed := { s with collectors := s.collectors.modify c f }
    if s.isQueued c then changed else changed.postpone c
  else s

/-! ## Passing time -/

/-- A wake of one loop: the time, the collector and the loop. -/
structure Wake where
  time : Nat
  collector : Nat
  loop : Nat

/-- The next wake of collector `c`. -/
def nextOf (s : Service) (c : Nat) : Option Wake :=
  (s.collectors[c]?.bind (·.next? s.time)).map fun (time, loop) => ⟨time, c, loop⟩

/-- The earliest wake of the given collectors, the first of equal ones. -/
def nextAmong (s : Service) : List Nat → Option Wake
  | [] => none
  | c :: cs =>
    match s.nextOf c, s.nextAmong cs with
    | none, w => w
    | w, none => w
    | some v, some w => if w.time < v.time then some w else some v

def next? (s : Service) : Option Wake := s.nextAmong s.turns

/-- The loop has a fetch in flight and has seen its token cancelled. -/
def Loop.isInterrupted (l : Loop) : Bool := l.cancelled && l.phase matches .fetching ..

/-- Lets a loop do its next thing. -/
def wake (s : Service) (w : Wake) : Service :=
  match s.collectors[w.collector]? with
  | none => s
  | some c =>
    let (c, hs) := c.wake w.loop w.time
    let s := { s with time := w.time, collectors := s.collectors.set w.collector c }
    let s := if c.loops[w.loop]?.any Loop.isInterrupted then s.postpone w.collector else s
    s.noteAll w.collector w.loop hs

/-- Serves at most `fuel` wakes before the deadline. -/
def serve (deadline : Nat) : Nat → Service → Service
  | 0, s => s
  | fuel + 1, s =>
    match s.next? with
    | none => s
    | some w => if w.time < deadline then serve deadline fuel (s.wake w) else s

/-- No fewer than the wakes before the deadline. -/
def rank (s : Service) (deadline : Nat) : Nat :=
  s.collectors.foldr (fun c n => c.rank (deadline * nanosPerMilli) + n) 0

/-- Serves all wakes before the deadline. The clock stays at the last of them. -/
def settle (s : Service) (deadline : Nat) : Service := s.serve deadline (s.rank deadline)

/-- Serves all wakes before the deadline and sets the clock to it. -/
def passUntil (s : Service) (deadline : Nat) : Service :=
  { s.settle deadline with time := max s.time deadline }

/-! ## A census in the foreground -/

/-- Lets collector `c`, which is `x`, draw its next fetch in the foreground. Its loop is woken only
by a fetch that cancels the token. -/
def draw (s : Service) (c : Nat) (x : Collector) : Service :=
  let (y, fetch) := x.beginFetch
  if fetch.cancels then s.rouse c fun _ => y
  else { s with collectors := s.collectors.modify c fun _ => y }

/-- Begins a fetch of collector `c`, which is `x`, for a census in the foreground. -/
def beginCensus (s : Service) (c : Nat) (x : Collector) : Service :=
  (s.draw c x).note c none (.fetchBegan x.beginFetch.2)

/-- A census of collector `c` that ignores the token. Loops go on while it waits. Without the
collector there are no accounts. -/
def census (s : Service) (c : Nat) (driver : Census.Driver) : Service × Fetched :=
  match s.collectors[c]? with
  | none => (s, .ok [])
  | some x =>
    let ending := x.beginFetch.2.ending x.timeout
    let s := s.beginCensus c x
    let s := if ending.after = 0 then s else s.passUntil (s.time + ending.after)
    (s.noteAll c none (ending.happenings driver), ending.fetched)

end Service

end AccountCensus
