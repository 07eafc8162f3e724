import AccountCensus.Journal
import AccountCensus.Store.Relation

/-!
# Databases and how they are opened

A database records which migrations were applied to it. The service knows one migration, which
creates the account table unless something has its name already. Opening a database connects to
it, checks its record and applies what is missing, and checks its integrity; the journal gets as
far as the opening came.
-/

namespace AccountCensus.Store

/-- An entry of the record of migrations. -/
structure Applied where
  version : Int
  /-- What was applied is what the service knows under that version. -/
  unchanged : Bool := true
  complete : Bool := true
deriving DecidableEq, Repr

/-- The version of the migration that the service knows. -/
def knownVersion : Int := 1

structure Database where
  relation : Relation := .absent
  /-- In ascending order of the versions. -/
  record : List Applied := []
  /-- What the integrity check complains of. -/
  damage : Option String := none

/-- What is wrong with a record: migrations that were left incomplete come first, then unknown
ones, then ones that were changed since. -/
def recordFault? (record : List Applied) : Option MigrationError :=
  ((record.find? (!·.complete)).map fun a => .dirty a.version) <|>
  ((record.find? (·.version != knownVersion)).map fun a => .missing a.version) <|>
  ((record.find? (!·.unchanged)).map fun a => .modified a.version)

namespace Database

/-- Applies the migration that creates the account table. -/
def createTable (d : Database) : Database :=
  { d with
    record := [{ version := knownVersion }]
    relation := match d.relation with
      | .absent => .table {}
      | relation => relation }

/-- A migrated database with the given accounts. -/
def ofAccounts (accounts : List Account) : Database where
  relation := .table (.ofAccounts accounts)
  record := [{ version := knownVersion }]

/-- Checks the record of migrations and applies what is missing. -/
def migrate (d : Database) : Except MigrationError Database :=
  match recordFault? d.record with
  | some e => .error e
  | none => .ok (if d.record.isEmpty then d.createTable else d)

/-- Migrates a connected database and checks its integrity. -/
def prepare (d : Database) : List Event × Except StoreError Database :=
  match d.migrate with
  | .error e => ([], .error (.migration e))
  | .ok d =>
    match d.damage with
    | none => ([.migrationsApplied, .integrityPassed], .ok d)
    | some report => ([.migrationsApplied, .integrityFailed report],
        .error (.internal ("database integrity check failed: " ++ report)))

end Database

/-- What a path leads to. -/
inductive Place where
  /-- Nothing that could be opened or created. -/
  | unreachable
  /-- A file that is no database. -/
  | otherFile
  | database (database : Database)

/-- Opens what a path leads to, and tells the journal's entries. -/
def Place.connect (path : String) : Place → List Event × Except StoreError Database
  | unreachable => ([], .error (.access (.refused .cannotOpen)))
  | otherFile => ([.storeConnected path], .error (.migration (.refused .notADatabase)))
  | database d =>
    let (events, outcome) := d.prepare
    (.storeConnected path :: events, outcome)

end AccountCensus.Store
