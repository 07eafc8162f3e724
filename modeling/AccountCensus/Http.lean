import AccountCensus.Census.Error
import AccountCensus.Census.Report

/-!
# The web endpoint

Two paths are served, the exposition text and a report made on demand, to the methods GET and
HEAD. A query does not count as part of the path; apart from that paths and methods are compared
exactly. The answer to HEAD is that to GET without its body.
-/

namespace AccountCensus.Http

structure Request where
  path : String
  method : String
deriving DecidableEq, Repr

structure Response where
  status : Nat
  contentType : Option String := none
  /-- The methods that the path allows, told to one that it does not. -/
  allow : Option String := none
  body : String := ""
deriving DecidableEq, Repr

/-- What can be asked for. -/
inductive Resource where
  | exposition
  | report
deriving DecidableEq, Repr

inductive Route where
  | serve (resource : Resource)
  | wrongMethod
  | unknownPath
deriving DecidableEq, Repr

/-- The path of a request target, without query and fragment. -/
def barePath (target : String) : String :=
  String.ofList (target.toList.takeWhile fun c => c != '?' && c != '#')

def resourceAt (path : String) : Option Resource :=
  if path = "/metrics" then some .exposition
  else if path = "/api/stats/users" then some .report
  else none

def Request.isRead (r : Request) : Bool := r.method == "GET" || r.method == "HEAD"

def Request.route (r : Request) : Route :=
  match resourceAt (barePath r.path) with
  | none => .unknownPath
  | some resource => if r.isRead then .serve resource else .wrongMethod

/-- The response as the method gets it: HEAD gets no body. -/
def Response.forMethod (method : String) (r : Response) : Response :=
  if method = "HEAD" then { r with body := "" } else r

def plainText : String := "text/plain; charset=utf-8"

/-- The answer with the exposition text. -/
def expositionResponse (text : String) : Response :=
  { status := 200, contentType := some plainText, body := text }

/-- The answer with a report, or with the text of the failure. -/
def reportResponse : Except CensusError Tally → Response
  | .ok t =>
    { status := 200, contentType := some "application/json", body := (Report.ofTally t).json }
  | .error e => { status := 500, contentType := some plainText, body := e.message }

def wrongMethodResponse : Response := { status := 405, allow := some "GET,HEAD" }

def unknownPathResponse : Response := { status := 404 }

end AccountCensus.Http
