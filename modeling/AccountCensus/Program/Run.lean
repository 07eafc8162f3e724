import AccountCensus.Files
import AccountCensus.Program.Endpoint
import AccountCensus.Program.Failure
import AccountCensus.Program.Shutdown
import AccountCensus.Store.Site

/-!
# A run of the program

The program loads its settings, opens the account store, has the login gauges registered, starts
the web endpoint unless its port is 0, and starts the collection loop, whose first census is taken
at once. From then on it works until it is interrupted. `run` tells what the journal says of a run
that is interrupted after the first census.
-/

namespace AccountCensus.Program

/-- The settings are read from the file that the first argument names. -/
def settingsPath (arguments : List String) : String := arguments.headD "config.toml"

/-- A program that has started. -/
structure Running where
  settings : Settings
  site : Store.Site
  endpoint? : Option Endpoint

/-- Starts the web endpoint, unless its port is 0. -/
def startEndpoint (port : Nat) (refusal? : Option String) : Option Endpoint × List Event :=
  if port = 0 then (none, [.endpointDisabled])
  else
    let (endpoint, events) := Endpoint.start port refusal?
    (some endpoint, .endpointStarted port :: events)

/-- Opens the store and starts everything, given the error that keeps the endpoint from its port
if there is one. -/
def startWith (fs : Files) (refusal? : Option String) (settings : Settings) :
    List Event × Except Failure Running :=
  let path := settings.database.path
  let (site, opening, opened) := Store.Site.enter {} path (fs.place path)
  match opened with
  | .error e => (opening, .error (.store e))
  | .ok () =>
    let (endpoint?, announcements) := startEndpoint settings.server.metricsPort refusal?
    (opening ++ .metricsInitialized :: announcements, .ok { settings, site, endpoint? })

/-- Loads the settings and starts. -/
def start (fs : Files) (refusal? : Option String) (arguments : List String) :
    List Event × Except Failure Running :=
  let path := settingsPath arguments
  match fs.settings path with
  | .error e => ([.settingsRejected path e.message], .error (.settings e))
  | .ok s =>
    let (events, outcome) := startWith fs refusal? s
    (.starting s.server.name s.database.path s.stats.collectionInterval :: events, outcome)

namespace Running

/-- The collection loop starts and takes its first census. -/
def collect (r : Running) : List Event :=
  let census := match r.site.clients[0]? with
    | some client => Census.events .loop (r.site.fetch client)
    | none => []
  .loopStarted r.settings.stats.interval.seconds :: census

/-- A signal comes and the loop ends. -/
def interrupt : List Event := Signal.received.events ++ [.loopStopped, .collectionFinished]

end Running

/-- How a run went. -/
structure Outcome where
  status : Nat
  events : List Event
  complaint : String := ""

/-- A run that is interrupted after the first census. -/
def run (fs : Files) (refusal? : Option String) (arguments : List String) : Outcome :=
  match start fs refusal? arguments with
  | (events, .error f) => { status := 1, events, complaint := f.complaint }
  | (events, .ok running) =>
    { status := 0, events := events ++ running.collect ++ Running.interrupt }

end AccountCensus.Program
