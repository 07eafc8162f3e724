import AccountCensus.Census.Outcome
import AccountCensus.Path
import AccountCensus.Store.Database

/-!
# Clients of databases

The engine keeps databases under names, and all who connect to a name share what is there. The name
of a file is its path; paths that the engine reads as addresses, which begin with `file:`, stand for
themselves here. To open the path of memory is to open a name that is made up for it, of the number
of the process and of a counter that goes up each time. A database in memory is gone when the last
connection to it is closed.

A client's pool keeps its connection between commands, but not for ever: when it comes to look at a
connection it closes one that has been unused for a minute or open for half an hour, and it hands
out none that has been open for so long. The next command connects anew, to the same name. Commands
come one after the other, so that one connection is enough.

Every client takes its census in gauges of its own, which it gets when it opens its database.
-/

namespace AccountCensus.Store

/-- How a client stands to its database. -/
inductive Link where
  /-- The last opening failed. -/
  | failed
  | opened
  | closed
deriving DecidableEq, Repr

/-- The name for a database in memory, made up by a process when its counter stood at `n`. -/
def memoryName (process n : Nat) : String :=
  "file:loginstats-memdb-" ++ toString process ++ "-" ++ toString n ++ "?mode=memory&cache=shared"

/-- How many milliseconds a connection may be left unused. -/
def idleLimit : Nat := 60000

/-- How many milliseconds a connection may be open. -/
def lifeLimit : Nat := 1800000

structure Client where
  path : String
  /-- The name under which the engine has the database. -/
  name : String
  link : Link := .failed
  metrics : Gauge.Metrics := {}
  /-- The pool has a connection. -/
  connected : Bool := false
  /-- When the connection was opened. -/
  openedAt : Nat := 0
  /-- When the connection was used last. -/
  usedAt : Nat := 0

namespace Client

/-- The connection has been unused for too long. -/
def isIdle (client : Client) (now : Nat) : Bool :=
  client.connected && client.usedAt + idleLimit < now

/-- The connection has been open for too long. -/
def isOld (client : Client) (now : Nat) : Bool :=
  client.connected && client.openedAt + lifeLimit < now

/-- The client while it uses a connection: a new one, unless the pool has one to hand out. -/
def inUse (client : Client) (now : Nat) : Client :=
  { client with
    connected := true
    openedAt := if client.connected && !client.isOld now then client.openedAt else now
    usedAt := now }

end Client

structure Site where
  /-- The number of the process. -/
  process : Nat := 0
  /-- Counts the names that were made up. -/
  counter : UInt64 := 0
  /-- The clock, in milliseconds. -/
  time : Nat := 0
  /-- What the engine has under its names. -/
  places : List (String × Place) := []
  clients : List Client := []

namespace Site

def setClient (s : Site) (c : Nat) (client : Client) : Site :=
  { s with clients := s.clients.set c client }

def setPlace (s : Site) (name : String) (place : Place) : Site :=
  { s with places := (name, place) :: s.places }

/-- What a name leads to. Where there is nothing yet, an empty database is made. -/
def placeOf (s : Site) (name : String) : Place := (s.places.lookup name).getD (.database {})

/-! ## Opening and closing -/

/-- The name that a path is opened by. -/
def nameFor (s : Site) (path : String) : String :=
  if path = Path.inMemory then memoryName s.process s.counter.toNat else path

/-- Counts a name that was made up for a path. -/
def count (s : Site) (path : String) : Site :=
  if path = Path.inMemory then { s with counter := s.counter + 1 } else s

/-- Opens a path for a client, with new gauges. -/
def connect (s : Site) (path : String) : Site × Client × List Event × Except StoreError Unit :=
  let name := s.nameFor path
  let s := s.count path
  match (s.placeOf name).connect path with
  | (events, .error e) => (s, { path, name }, events, .error e)
  | (events, .ok d) =>
    let (metrics, outcome) := Gauge.Metrics.request {}
    let client : Client := { path, name, link := .opened, metrics }
    (s.setPlace name (.database d), client.inUse s.time,
      events ++ [Event.ofRegistration outcome], .ok ())

/-- A path that nobody has opened yet leads to `found`. -/
def discover (s : Site) (path : String) (found : Place) : Site :=
  if path = Path.inMemory || (s.places.lookup path).isSome then s else s.setPlace path found

/-- A new client opens a path, at which there is `found` if nobody has opened it yet. -/
def enter (s : Site) (path : String) (found : Place) : Site × List Event × Except StoreError Unit :=
  let (s, client, events, result) := (s.discover path found).connect path
  ({ s with clients := s.clients ++ [client] }, events, result)

/-- Somebody is connected to a name. -/
def isHeld (s : Site) (name : String) : Bool :=
  s.clients.any fun client => client.connected && client.name == name

/-- Closes the connection of a client. A database in memory goes with its last connection. -/
def release (s : Site) (c : Nat) (client : Client) : Site :=
  let s := s.setClient c { client with connected := false }
  if client.path = Path.inMemory && !s.isHeld client.name then
    s.setPlace client.name (.database {})
  else s

/-- A client opens its path again, after all its connections were closed. -/
def reconnect (s : Site) (c : Nat) (client : Client) :
    Site × List Event × Except StoreError Unit :=
  let (s, client, events, result) := (s.release c client).connect client.path
  (s.setClient c client, events, result)

/-! ## The pool -/

/-- Takes the connection of a client from its pool. -/
def acquire (s : Site) (c : Nat) (client : Client) : Site × Client :=
  if client.link = .opened then
    let s := if client.isOld s.time then s.release c client else s
    (s.setClient c (client.inUse s.time), client.inUse s.time)
  else (s, client)

/-- The pool of a client looks at its connection and closes it if it is due. -/
def lapse (s : Site) (c : Nat) : Site :=
  match s.clients[c]? with
  | none => s
  | some client =>
    if client.isIdle s.time || client.isOld s.time then s.release c client else s

/-- Time passes, and then the pools of some clients look at their connections. -/
def wait (s : Site) (millis : Nat) (pools : List Nat) : Site :=
  pools.foldl lapse { s with time := s.time + millis }

/-! ## Access -/

/-- The database that a client has open. -/
def databaseOf (s : Site) (client : Client) : Except StoreError Database :=
  if client.link = .opened then
    match s.placeOf client.name with
    | .database d => .ok d
    | .otherFile => .error (.access (.refused .notADatabase))
    | .unreachable => .error (.access (.refused .cannotOpen))
  else .error (.access .poolClosed)

/-- Lets a client change what the name of the account table stands for. -/
def change {α : Type} (s : Site) (client : Client)
    (f : Relation → Except Refusal (Relation × α)) : Site × Except StoreError α :=
  match s.databaseOf client with
  | .error e => (s, .error e)
  | .ok d =>
    match f d.relation with
    | .error refusal => (s, .error (.access (.refused refusal)))
    | .ok (relation, answer) =>
      (s.setPlace client.name (.database { d with relation }), .ok answer)

/-- The accounts in the database of a client. -/
def fetch (s : Site) (client : Client) : Fetched := do
  (← s.databaseOf client).relation.accounts.mapError .access

/-- A census of the accounts in the database of a client. -/
def census (s : Site) (c : Nat) (client : Client) (driver : Census.Driver) :
    Site × List Event × Fetched :=
  let fetched := s.fetch client
  (s.setClient c { client with metrics := Census.publish client.metrics fetched },
    Census.events driver fetched, fetched)

end Site

end AccountCensus.Store
