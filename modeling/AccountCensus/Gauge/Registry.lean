/-!
# The registry of metrics

A registry holds metrics by their full names, each at most once: registering a metric whose name
is taken fails, whatever the help or the kind of the other. A registry can also hold a broken
collector, which takes no name and makes the registry unprintable. The metrics are gauges and
counters with integer values: the login gauges are such, and no others, histograms or metrics with
labels or fractions, are considered beside them.
-/

namespace AccountCensus.Gauge

inductive Kind where
  | gauge
  | counter
deriving DecidableEq, Repr

structure Metric where
  /-- The full name, the namespace included. -/
  name : String
  help : String
  kind : Kind
  value : Int
deriving DecidableEq, Repr

/-- A name within a namespace. A missing or empty namespace adds nothing. -/
def fullName (space : Option String) (name : String) : String :=
  match space with
  | none => name
  | some s => if s = "" then name else s ++ "_" ++ name

structure Registry where
  /-- In the order of registration. -/
  metrics : List Metric := []
  broken : Bool := false
  /-- What the encoder says of the broken collector. -/
  complaint : String := ""
deriving DecidableEq, Repr

namespace Registry

def names (r : Registry) : List String := r.metrics.map Metric.name

/-- Adds a metric, unless its name is taken. -/
def register (r : Registry) (m : Metric) : Option Registry :=
  if r.names.contains m.name then none else some { r with metrics := r.metrics ++ [m] }

/-- Takes out the metric of a name. There is none to take out if the name is free. -/
def unregister (r : Registry) (name : String) : Option Registry :=
  if r.names.contains name then some { r with metrics := r.metrics.filter (·.name ≠ name) }
  else none

/-- Takes out metrics again, one after the other. One that is not there is passed over. -/
def rollBack (r : Registry) (ms : List Metric) : Registry :=
  ms.foldl (fun r m => (r.unregister m.name).getD r) r

/-- Adds metrics one after the other, after `added` were added already. The first whose name is
taken ends this, and those that were added before it are taken out again. Tells whether all of
them are in. -/
def registerFrom (r : Registry) (added : List Metric) : List Metric → Registry × Bool
  | [] => (r, true)
  | m :: ms =>
    match r.register m with
    | some r => r.registerFrom (added ++ [m]) ms
    | none => (r.rollBack added, false)

def registerAll (r : Registry) (ms : List Metric) : Registry × Bool := r.registerFrom [] ms

/-- Overwrites the value of a registered metric. -/
def set (r : Registry) (name : String) (value : Int) : Registry :=
  { r with metrics := r.metrics.map fun m => if m.name = name then { m with value } else m }

end Registry

end AccountCensus.Gauge
