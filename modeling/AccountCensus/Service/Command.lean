import AccountCensus.Http
import AccountCensus.Gauge.Exposition
import AccountCensus.Service.State

/-!
# Commands to a service

`perform` carries out one command and gives its answer. Every command but `advance` and `cancel`
needs its collector, which exists only if the login gauges could be registered. `run` carries out
commands one after the other, and reports on each what an observer sees after it. The journal tells
the history, and beside it what the encoder complains of when somebody reads the exposition text;
such a reading takes no time and leaves nothing in the history.
-/

namespace AccountCensus.Service

inductive Command where
  | start (collector : Nat) (fresh : Bool)
  | advance (millis : Nat)
  | cancel (collector : Nat)
  | join (collector : Nat)
  | get (collector : Nat)
  | collect (collector : Nat)
  | gather (collector : Nat)
  | request (collector : Nat) (request : Http.Request)
deriving DecidableEq, Repr

inductive Answer where
  | nothing
  | noCollector
  | stopped
  | panicked
  | running
  | notStarted
  | tally (result : Except CensusError Tally)
  | report (result : Except CensusError Report)
  | text (exposition : String)
  | response (response : Http.Response)

/-- The collector that a command needs. -/
def Command.needs : Command → Option Nat
  | .advance _ | .cancel _ => none
  | .start c _ | .join c | .get c | .collect c | .gather c | .request c _ => some c

/-- Collector `c` was created. -/
def has (s : Service) (c : Nat) : Bool := s.metrics.ready && c < s.collectors.length

/-- What `join` learns of a loop that has ended. -/
def Loop.end? (l : Loop) : Option Answer :=
  match l.phase with
  | .stopped => some .stopped
  | .panicked => some .panicked
  | _ => none

/-- The end of the loop that `join` waits for. -/
def endOf (s : Service) (c : Nat) : Option Answer :=
  (s.collectors[c]?.bind Collector.joined?).bind Loop.end?

def forget (s : Service) (c : Nat) : Service :=
  { s with collectors := s.collectors.modify c fun x => { x with joinable := none } }

/-- Waits for the loop of collector `c` to end, for at most one millisecond. -/
def join (s : Service) (c : Nat) : Service × Answer :=
  if (s.collectors[c]?.bind Collector.joined?).isNone then (s, .notStarted)
  else
    match s.endOf c with
    | some answer => (s.forget c, answer)
    | none =>
      let settled := s.settle (s.time + 1)
      match settled.endOf c with
      | some answer => (settled.forget c, answer)
      | none => ({ settled with time := s.time + 1 }, .running)

/-- Carries out a request to the web endpoint, whose reports come from collector `c`. -/
def request (s : Service) (c : Nat) (r : Http.Request) : Service × Http.Response :=
  match r.route with
  | .unknownPath => (s, Http.unknownPathResponse)
  | .wrongMethod => (s, Http.wrongMethodResponse)
  | .serve .exposition =>
    (s, (Http.expositionResponse s.metrics.registry.exposition).forMethod r.method)
  | .serve .report =>
    let (s, fetched) := s.census c .report
    (s, (Http.reportResponse (Census.result fetched)).forMethod r.method)

/-- Carries out a command whose collector exists. -/
def carryOut (s : Service) : Command → Service × Answer
  | .start c fresh => (s.rouse c (·.start fresh), .nothing)
  | .advance millis => (s.passUntil (s.time + millis), .nothing)
  | .cancel c => (s.rouse c Collector.cancel, .nothing)
  | .join c => s.join c
  | .get c =>
    let (s, fetched) := s.census c .call
    (s, .tally (Census.result fetched))
  | .collect c =>
    let (s, fetched) := s.census c .report
    (s, .report ((Census.result fetched).map Report.ofTally))
  | .gather _ => (s, .text s.metrics.registry.exposition)
  | .request c r =>
    let (s, response) := s.request c r
    (s, .response response)

def perform (s : Service) (command : Command) : Service × Answer :=
  match command.needs with
  | some c => if s.has c then s.carryOut command else (s, .noCollector)
  | none => s.carryOut command

/-! ## Runs -/

/-- The command reads the exposition text, directly or from the web endpoint. -/
def Command.isReading : Command → Bool
  | .gather _ => true
  | .request _ r => r.route == .serve .exposition
  | _ => false

/-- What the journal says of a command beside what the history tells. -/
def complaints (s : Service) (command : Command) : List Event :=
  if command.isReading && command.needs.any s.has then Event.ofExposition s.metrics.registry
  else []

/-- What an observer sees after a command. -/
structure Observation where
  answer : Answer
  time : Nat
  /-- The fetch marks of each source since the observation before. -/
  marks : List (List (Nat × Mark))
  running : List Bool
  samples : List String
  events : List Event

/-- The entries of the history that an earlier state does not have, in order. -/
def since (s before : Service) : List Record :=
  (s.history.take (s.history.length - before.history.length)).reverse

/-- What an observer sees of a command that led from `before` to `s`. -/
def observe (before s : Service) (command : Command) (answer : Answer) : Observation :=
  let records := s.since before
  { answer
    time := s.time
    marks := (List.range s.collectors.length).map fun c => Service.marks c records
    running := s.collectors.map Collector.isRunning
    samples := s.metrics.registry.samples
    events := Service.events records ++ before.complaints command }

def run (s : Service) : List Command → List Observation
  | [] => []
  | command :: commands =>
    let (s', answer) := s.perform command
    s.observe s' command answer :: run s' commands

/-! ## Creation -/

/-- What a collector is made of. -/
structure Source where
  interval : Duration
  timeout : Duration
  script : List Fetch

/-- Has the login gauges registered for one collector after the other. -/
def createAll (m : Gauge.Metrics) (sources : List Source) :
    Gauge.Metrics × List (Except Gauge.RegistrationError Unit) :=
  m.requests sources.length

def create (registry : Gauge.Registry) (sources : List Source) : Service :=
  { collectors := sources.map fun x =>
      { interval := x.interval, timeout := x.timeout, script := x.script }
    turns := List.range sources.length
    metrics := (createAll { registry } sources).1 }

/-- The journal tells only of the first request for the login gauges. -/
def registrationEvents (outcomes : List (Except Gauge.RegistrationError Unit)) : List Event :=
  (outcomes.take 1).map Event.ofRegistration

end AccountCensus.Service
