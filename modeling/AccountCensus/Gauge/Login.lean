import AccountCensus.Account.Tally
import AccountCensus.Gauge.Registry

/-!
# The login gauges

Three gauges carry the tally of the last census. The first caller has them registered, all
together or not at all, and every later caller gets the outcome of that first call.
-/

namespace AccountCensus.Gauge

/-- The exporter's namespace. -/
def exporter : String := "grafana"

def duplicatesGauge : Metric where
  name := fullName (some exporter) "stat_users_total_duplicate_user_entries"
  help := "total number of duplicate user entries by email or login"
  kind := .gauge
  value := 0

def flagGauge : Metric where
  name := fullName (some exporter) "stat_users_has_duplicate_user_entries"
  help := "instance has duplicate user entries by email or login"
  kind := .gauge
  value := 0

def mixedCasedGauge : Metric where
  name := fullName (some exporter) "stat_users_total_mixed_cased_users"
  help := "total number of users with upper and lower case logins or emails"
  kind := .gauge
  value := 0

/-- The login gauges in the order of their registration. -/
def loginGauges : List Metric := [duplicatesGauge, flagGauge, mixedCasedGauge]

/-- A gauge holds at most `2 ^ 63 - 1`. -/
def clamp (count : Nat) : Int := min (count : Int) (Nat.pow 2 63 - 1)

/-- Why the login gauges are not available. -/
inductive RegistrationError where
  | nameTaken
deriving DecidableEq, Repr

namespace RegistrationError

/-- The cause alone. -/
def reason : RegistrationError → String
  | nameTaken => "Duplicate metrics collector registration attempted"

def message (e : RegistrationError) : String := "failed to register login metrics: " ++ e.reason

end RegistrationError

/-- A registry, and the outcome of registering the login gauges once that was tried. -/
structure Metrics where
  registry : Registry := {}
  outcome : Option (Except RegistrationError Unit) := none

namespace Metrics

/-- The login gauges are registered and can be set. -/
def ready (m : Metrics) : Bool := m.outcome matches some (.ok ())

/-- Has the login gauges registered if nobody has yet, and tells the outcome. -/
def request (m : Metrics) : Metrics × Except RegistrationError Unit :=
  match m.outcome with
  | some outcome => (m, outcome)
  | none =>
    match m.registry.registerAll loginGauges with
    | (registry, true) => ({ registry, outcome := some (.ok ()) }, .ok ())
    | (registry, false) =>
      ({ registry, outcome := some (.error .nameTaken) }, .error .nameTaken)

/-- The outcomes of several requests. -/
def requests (m : Metrics) : Nat → Metrics × List (Except RegistrationError Unit)
  | 0 => (m, [])
  | n + 1 =>
    let (m, outcome) := m.request
    let (m, outcomes) := m.requests n
    (m, outcome :: outcomes)

/-- Overwrites the three gauges with a tally. -/
def publish (m : Metrics) (t : Tally) : Metrics :=
  { m with
    registry := m.registry
      |>.set duplicatesGauge.name (clamp t.duplicates)
      |>.set flagGauge.name t.flag
      |>.set mixedCasedGauge.name (clamp t.mixedCased) }

end Metrics

end AccountCensus.Gauge
