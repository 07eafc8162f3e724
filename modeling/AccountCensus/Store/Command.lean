import AccountCensus.Gauge.Exposition
import AccountCensus.Http
import AccountCensus.Store.Site

/-!
# Commands of a client

`perform` carries out a command of one client and gives the answer, together with what the journal
says of it. A command that needs the database takes the connection from the client's pool. A client
whose last opening failed can only try to open its database again.
-/

namespace AccountCensus.Store

inductive Command where
  | insert (id? : Option Int) (login email : Cell)
  | update (id : Int) (login email : Cell)
  | delete (id : Int)
  | dropTable
  | dropEmail
  | close
  | reopen
  | fetch
  | get
  | collect
  | gather
  | request (request : Http.Request)

/-- The command needs the database. -/
def Command.needsDatabase : Command → Bool
  | .insert .. | .update .. | .delete _ | .dropTable | .dropEmail | .fetch | .get | .collect => true
  | .request r => r.route == .serve .report
  | .close | .reopen | .gather => false

inductive Answer where
  | notOpen
  | done (result : Except StoreError Unit)
  | inserted (id : Except StoreError Int)
  | changed (rows : Except StoreError Nat)
  | accounts (result : Fetched)
  | tally (result : Except CensusError Tally)
  | report (result : Except CensusError Report)
  | text (exposition : String)
  | response (response : Http.Response)

namespace Site

/-- An answer without entries in the journal. -/
def quietly {α : Type} (answer : α → Answer) : Site × α → Site × List Event × Answer
  | (s, result) => (s, [], answer result)

/-- Carries out a request to the web endpoint of a client. -/
def request (s : Site) (c : Nat) (client : Client) (r : Http.Request) :
    Site × List Event × Http.Response :=
  match r.route with
  | .unknownPath => (s, [], Http.unknownPathResponse)
  | .wrongMethod => (s, [], Http.wrongMethodResponse)
  | .serve .exposition =>
    (s, Event.ofExposition client.metrics.registry,
      (Http.expositionResponse client.metrics.registry.exposition).forMethod r.method)
  | .serve .report =>
    let (s, events, fetched) := s.census c client .report
    (s, events, (Http.reportResponse (Census.result fetched)).forMethod r.method)

/-- Carries out a command of a client that has opened its database. -/
def carryOut (s : Site) (c : Nat) (client : Client) : Command → Site × List Event × Answer
  | .insert id? login email =>
    quietly .inserted (s.change client (Relation.change (·.insert id? login email)))
  | .update id login email =>
    quietly .changed (s.change client (Relation.change (·.update id login email)))
  | .delete id => quietly .changed (s.change client (Relation.change fun t => .ok (t.delete id)))
  | .dropTable => quietly .done (s.change client fun r => r.drop.map (·, ()))
  | .dropEmail => quietly .done (s.change client fun r => r.dropEmail.map (·, ()))
  | .close =>
    ((s.release c client).setClient c { client with link := .closed, connected := false }, [],
      .done (.ok ()))
  | .reopen =>
    let (s, events, result) := s.reconnect c client
    (s, events, .done result)
  | .fetch => (s, [], .accounts (s.fetch client))
  | .get =>
    let (s, events, fetched) := s.census c client .call
    (s, events, .tally (Census.result fetched))
  | .collect =>
    let (s, events, fetched) := s.census c client .report
    (s, events, .report ((Census.result fetched).map Report.ofTally))
  | .gather =>
    (s, Event.ofExposition client.metrics.registry, .text client.metrics.registry.exposition)
  | .request r =>
    let (s, events, response) := s.request c client r
    (s, events, .response response)

def perform (s : Site) (c : Nat) (command : Command) : Site × List Event × Answer :=
  match s.clients[c]? with
  | none => (s, [], .notOpen)
  | some client =>
    match client.link, command with
    | .failed, .reopen | .opened, _ | .closed, _ =>
      let (s, client) := if command.needsDatabase then s.acquire c client else (s, client)
      s.carryOut c client command
    | .failed, _ => (s, [], .notOpen)

end Site

end AccountCensus.Store
