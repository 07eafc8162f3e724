import AccountCensus.Path
import AccountCensus.Settings.Basic
import AccountCensus.Text.Quoted

/-!
# Legal settings

Interval and time-out must not be zero. The database needs a path, and the directory that holds
the file must exist; `:memory:` and paths without a parent, or with the empty one, need none. All
violations are reported, in this order.
-/

namespace AccountCensus.Settings

inductive Violation where
  | zeroInterval
  | zeroTimeout
  | noDatabasePath
  | noParentDirectory (path : String)
deriving DecidableEq, Repr

namespace Violation

def message : Violation → String
  | zeroInterval => "stats.collection_interval must be greater than zero"
  | zeroTimeout => "stats.fetch_timeout must be greater than zero"
  | noDatabasePath => "database.path is required"
  | noParentDirectory path => "database.path parent directory does not exist: " ++ path

end Violation

/-- The directory that holds the file of a path exists, or none is needed. -/
def hasDirectory (existing : String → Bool) (path : String) : Bool :=
  match Path.parent? path with
  | none => true
  | some parent => parent == "" || existing parent

/-- What is wrong with a database path. -/
def pathViolations (existing : String → Bool) (path : String) : List Violation :=
  if path = "" then [.noDatabasePath]
  else if path = Path.inMemory || hasDirectory existing path then []
  else [.noParentDirectory path]

/-- Everything that is wrong with settings, given the paths that exist. -/
def violations (existing : String → Bool) (s : Settings) : List Violation :=
  (if s.stats.collectionInterval = 0 then [.zeroInterval] else []) ++
    (if s.stats.fetchTimeout = 0 then [.zeroTimeout] else []) ++
    pathViolations existing s.database.path

/-- The settings, unless something is wrong with them. -/
def validate (existing : String → Bool) (s : Settings) : Except (List Violation) Settings :=
  match violations existing s with
  | [] => .ok s
  | vs => .error vs

end AccountCensus.Settings
