import AccountCensus.Duration
import AccountCensus.Text.Utf8

/-!
# Why the account store could not be read

Each error is the cause, and `message` its wording. `Refusal` holds what the database engine itself
answers, with the number it gives to that answer; `DecodingFault` holds why a value that a row
carries is no text.
-/

namespace AccountCensus.Store

/-- What the database engine refuses. -/
inductive Refusal where
  | missingValue (column : String)
  | takenId
  | noIdLeft
  | noAccountTable
  | noEmailInQuery
  | noEmailToDrop
  | noEmailInInsert
  | accountsAreView
  | viewHasNoColumnToDrop
  | viewIsNoTable
  | cannotOpen
  | notADatabase
deriving DecidableEq, Repr

namespace Refusal

def code : Refusal → Nat
  | missingValue _ => 1299
  | takenId => 1555
  | noIdLeft => 13
  | cannotOpen => 14
  | notADatabase => 26
  | _ => 1

def text : Refusal → String
  | missingValue column => "NOT NULL constraint failed: users." ++ column
  | takenId => "UNIQUE constraint failed: users.id"
  | noIdLeft => "database or disk is full"
  | noAccountTable => "no such table: users"
  | noEmailInQuery => "no such column: email"
  | noEmailToDrop => "no such column: \"email\""
  | noEmailInInsert => "table users has no column named email"
  | accountsAreView => "cannot modify users because it is a view"
  | viewHasNoColumnToDrop => "cannot drop column from view \"users\""
  | viewIsNoTable => "use DROP VIEW to delete view users"
  | cannotOpen => "unable to open database file"
  | notADatabase => "file is not a database"

def message (r : Refusal) : String :=
  "error returned from database: (code: " ++ toString r.code ++ ") " ++ r.text

end Refusal

/-- Why the value of a column is no text. -/
inductive DecodingFault where
  | blob
  | notText (fault : Text.Utf8.Fault)
deriving DecidableEq, Repr

def DecodingFault.message : DecodingFault → String
  | blob => "mismatched types; Rust type `alloc::string::String` (as SQL type `TEXT`) " ++
      "is not compatible with SQL type `BLOB`"
  | notText fault => fault.message

/-- What the access to the database reports. -/
inductive AccessError where
  | rowNotFound
  | poolTimedOut
  | poolClosed
  | workerCrashed
  | protocol (text : String)
  | columnNotFound (name : String)
  | refused (refusal : Refusal)
  | undecodable (column : Nat) (fault : DecodingFault)
deriving DecidableEq, Repr

def AccessError.message : AccessError → String
  | rowNotFound =>
    "no rows returned by a query that expected to return at least one row"
  | poolTimedOut => "pool timed out while waiting for an open connection"
  | poolClosed => "attempted to acquire a connection on a closed pool"
  | workerCrashed => "attempted to communicate with a crashed background worker"
  | protocol text => "encountered unexpected or invalid data: " ++ text
  | columnNotFound name => "no column found for name: " ++ name
  | refused refusal => refusal.message
  | undecodable column fault =>
    "error occurred while decoding column " ++ toString column ++ ": " ++ fault.message

/-- What is wrong with the record of migrations that a database carries. -/
inductive MigrationError where
  | missing (version : Int)
  | modified (version : Int)
  | dirty (version : Int)
  | refused (refusal : Refusal)
deriving DecidableEq, Repr

def MigrationError.message : MigrationError → String
  | missing v => "migration " ++ toString v ++
      " was previously applied but is missing in the resolved migrations"
  | modified v => "migration " ++ toString v ++
      " was previously applied but has been modified"
  | dirty v => "migration " ++ toString v ++
      " is partially applied; fix and remove row from `_sqlx_migrations` table"
  | refused refusal => "while executing migrations: " ++ refusal.message

end AccountCensus.Store

namespace AccountCensus

/-- Why the account store could not be read. -/
inductive StoreError where
  | access (error : Store.AccessError)
  | migration (error : Store.MigrationError)
  | timeout (after : Duration)
  | internal (text : String)
deriving DecidableEq, Repr

def StoreError.message : StoreError → String
  | access e => "database error: " ++ e.message
  | migration e => "migration error: " ++ e.message
  | timeout after => "query timed out after " ++ after.text
  | internal text => "internal error: " ++ text

end AccountCensus
