import AccountCensus.Census.Error
import AccountCensus.Gauge.Login

/-!
# The journal

The service keeps a journal of what happens to it. An `Event` is the fact; its level, the part of
the service it belongs to, its message and its fields are functions of it. A line is written
either in short form or with the part's name, as the command line shows it.
-/

namespace AccountCensus

/-- How urgent an entry of the journal is, the most urgent first. -/
inductive Level where
  | error
  | warning
  | info
  | debug
  | trace
deriving DecidableEq, Repr

namespace Level

def label : Level → String
  | error => "ERROR"
  | warning => "WARN"
  | info => "INFO"
  | debug => "DEBUG"
  | trace => "TRACE"

def rank : Level → Nat
  | error => 1
  | warning => 2
  | info => 3
  | debug => 4
  | trace => 5

end Level

/-- The part of the service that an entry comes from. -/
inductive Part where
  | program
  | store
  | metrics
  | http
  | collector
deriving DecidableEq, Repr

def Part.label : Part → String
  | program => "loginstats"
  | store => "loginstats::db"
  | metrics => "loginstats::metrics"
  | http => "loginstats::http"
  | collector => "loginstats::stats::collector"

/-- What the journal tells of. -/
inductive Event where
  | settingsRejected (path error : String)
  | starting (name database : String) (intervalSeconds : Nat)
  | metricsInitialized
  | endpointDisabled
  | endpointStarted (port : Nat)
  | shutdownRequested
  | shutdownSignalLost (error : String)
  | collectionFinished
  | storeConnected (path : String)
  | migrationsApplied
  | integrityPassed
  | integrityFailed (report : String)
  | gaugesRegistered
  | gaugeRefused (error : Gauge.RegistrationError)
  | encodingFailed (error : String)
  | listening (port : Nat)
  | bindFailed (port : Nat) (error : String)
  | loopStarted (intervalSeconds : Nat)
  | loopStopped
  | collected (accounts : Nat) (tally : Tally)
  | loopCensusFailed (error : CensusError)
  | requestedCensusFailed (error : CensusError)
deriving DecidableEq, Repr

namespace Event

def level : Event → Level
  | settingsRejected .. | shutdownSignalLost _ | integrityFailed _ | encodingFailed _
  | bindFailed .. | requestedCensusFailed _ => .error
  | gaugeRefused _ | loopCensusFailed _ => .warning
  | collected .. => .debug
  | _ => .info

def part : Event → Part
  | storeConnected _ | migrationsApplied | integrityPassed | integrityFailed _ => .store
  | gaugesRegistered | gaugeRefused _ | encodingFailed _ => .metrics
  | listening _ | bindFailed .. => .http
  | loopStarted _ | loopStopped | collected .. | loopCensusFailed _ | requestedCensusFailed _ =>
    .collector
  | _ => .program

/-- What the journal says about a request for the login gauges. -/
def ofRegistration : Except Gauge.RegistrationError Unit → Event
  | .ok () => .gaugesRegistered
  | .error e => .gaugeRefused e

/-- What the journal says about a reading of the exposition text: only a failure is told. -/
def ofExposition (r : Gauge.Registry) : List Event :=
  if r.broken then [.encodingFailed r.complaint] else []

/-- All interfaces of the machine, at a port. -/
def address (port : Nat) : String := "0.0.0.0:" ++ toString port

def message : Event → String
  | settingsRejected .. => "Failed to load config"
  | starting .. => "Starting loginstats"
  | metricsInitialized => "Metrics initialized"
  | endpointDisabled => "Metrics HTTP endpoint disabled"
  | endpointStarted _ => "Prometheus HTTP server started"
  | shutdownRequested => "Shutdown requested"
  | shutdownSignalLost _ => "Failed to listen for shutdown signal"
  | collectionFinished => "Login stats collection finished"
  | storeConnected _ => "Database connected"
  | migrationsApplied => "Database migrations checked/applied"
  | integrityPassed => "Database integrity check passed"
  | integrityFailed _ => "Database integrity check FAILED - corruption detected!"
  | gaugesRegistered => "Login metrics registered"
  | gaugeRefused _ => "Failed to register login metric"
  | encodingFailed _ => "Failed to encode Prometheus metrics"
  | listening port => "Prometheus HTTP server listening on " ++ address port
  | bindFailed port error => "Failed to bind HTTP server on " ++ address port ++ ": " ++ error
  | loopStarted _ => "Login stats collection started"
  | loopStopped => "Login stats collection stopped"
  | collected .. => "Login stats collected"
  | loopCensusFailed _ => "Failed to get login stats metrics"
  | requestedCensusFailed _ => "Failed to get login stats"

/-- The fields of a failed census: its text, and its code in quotes. -/
def failureFields (e : CensusError) : List (String × String) :=
  [("error", e.message), ("code", "\"" ++ e.code ++ "\"")]

def fields : Event → List (String × String)
  | settingsRejected path error => [("path", path), ("error", error)]
  | starting name database seconds =>
    [("name", name), ("database", database), ("interval_secs", toString seconds)]
  | endpointStarted port => [("port", toString port)]
  | shutdownSignalLost error => [("error", error)]
  | collectionFinished => [("reason", "Cancelled")]
  | storeConnected path => [("path", path)]
  | integrityFailed report => [("integrity_check", report)]
  | gaugesRegistered => [("namespace", "\"" ++ Gauge.exporter ++ "\"")]
  | gaugeRefused e => [("error", e.reason)]
  | encodingFailed error => [("error", error)]
  | loopStarted seconds => [("interval_secs", toString seconds)]
  | collected accounts tally =>
    [("users", toString accounts), ("duplicates", toString tally.duplicates),
      ("mixed_cased", toString tally.mixedCased)]
  | loopCensusFailed e | requestedCensusFailed e => failureFields e
  | _ => []

/-- The message, and each field as `key=value`. -/
def body (e : Event) : String :=
  String.intercalate " " (e.message :: e.fields.map fun (key, value) => key ++ "=" ++ value)

def line (e : Event) : String := e.level.label ++ " " ++ e.body

/-- The line with the name of the part that the event comes from. -/
def fullLine (e : Event) : String := e.level.label ++ " " ++ e.part.label ++ ": " ++ e.body

end Event

end AccountCensus
