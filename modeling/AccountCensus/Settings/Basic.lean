import AccountCensus.Duration

/-!
# Settings

The settings of the service in three sections. Every setting has a default.
-/

namespace AccountCensus.Settings

/-- The identity of the process and its web endpoint. -/
structure Server where
  /-- Attached to the first line of the journal. -/
  name : String := "loginstats"
  /-- The port of the web endpoint; 0 disables it. -/
  metricsPort : Nat := 9090
deriving DecidableEq, Repr, Inhabited

/-- The account store. -/
structure Database where
  /-- A file, or `:memory:`. -/
  path : String := "loginstats.db"
deriving DecidableEq, Repr, Inhabited

/-- The cadence of the collection, in seconds. -/
structure Stats where
  collectionInterval : Nat := 1800
  fetchTimeout : Nat := 60
deriving DecidableEq, Repr, Inhabited

def Stats.interval (s : Stats) : Duration := .ofSeconds s.collectionInterval 0

def Stats.timeout (s : Stats) : Duration := .ofSeconds s.fetchTimeout 0

end AccountCensus.Settings

namespace AccountCensus

structure Settings where
  server : Settings.Server := {}
  database : Settings.Database := {}
  stats : Settings.Stats := {}
deriving DecidableEq, Repr, Inhabited

end AccountCensus
