import AccountCensus.Account.Basic
import AccountCensus.Store.Cell

/-!
# The account table

Rows are kept in ascending order of their ids, and are read in that order. A table in the
service's own layout wants a login and an email in every row and never gives an id again, even if
the row is gone; one in a foreign layout takes rows without them, and gives the id behind the
largest present one. An operation that is refused changes nothing.
-/

namespace AccountCensus.Store

structure Row where
  id : Int
  login : Cell
  email : Cell
deriving DecidableEq

inductive Layout where
  | own
  | foreign
deriving DecidableEq, Repr

structure Table where
  layout : Layout := .own
  hasEmail : Bool := true
  rows : List Row := []
  /-- The largest id that a row has ever had, or 0. -/
  lastId : Int := 0

/-- The largest id there is. -/
def maxId : Int := Nat.pow 2 63 - 1

/-- Puts a row at its place among rows with ascending ids. -/
def insertRow (row : Row) : List Row → List Row
  | [] => [row]
  | r :: rows => if row.id < r.id then row :: r :: rows else r :: insertRow row rows

namespace Table

/-- A table in the service's own layout with the given accounts, numbered from 1 on. -/
def ofAccounts (accounts : List Account) : Table where
  rows := (accounts.zipIdx 1).map fun (a, id) => ⟨id, .ofString a.login, .ofString a.email⟩
  lastId := accounts.length

def hasId (t : Table) (id : Int) : Bool := t.rows.any (·.id == id)

/-- The id that the next id given out comes behind. -/
def topId (t : Table) : Int :=
  match t.layout with
  | .own => t.lastId
  | .foreign => (t.rows.getLast?.map Row.id).getD 0

/-- The id for a row that comes without one. -/
def nextId (t : Table) : Except Refusal Int :=
  if t.topId < maxId then .ok (t.topId + 1) else .error .noIdLeft

/-- Refuses a missing value where the layout wants one, the login first. -/
def demand (t : Table) (login email : Cell) : Except Refusal Unit :=
  if t.layout = .foreign then .ok ()
  else if login = .missing then .error (.missingValue "login")
  else if email = .missing then .error (.missingValue "email")
  else .ok ()

/-- Adds a row and tells its id. -/
def insert (t : Table) (id? : Option Int) (login email : Cell) : Except Refusal (Table × Int) := do
  if !t.hasEmail then throw .noEmailInInsert
  let id ← id?.elim t.nextId .ok
  t.demand login email
  if t.hasId id then throw .takenId
  return ({ t with rows := insertRow ⟨id, login, email⟩ t.rows, lastId := max t.lastId id }, id)

/-- Overwrites the row with an id, and tells how many rows that were. -/
def update (t : Table) (id : Int) (login email : Cell) : Except Refusal (Table × Nat) := do
  if !t.hasEmail then throw .noEmailInQuery
  if !t.hasId id then return (t, 0)
  t.demand login email
  return ({ t with rows := t.rows.map fun r => if r.id = id then ⟨id, login, email⟩ else r }, 1)

/-- Removes the row with an id, and tells how many rows that were. -/
def delete (t : Table) (id : Int) : Table × Nat :=
  ({ t with rows := t.rows.filter (·.id != id) }, if t.hasId id then 1 else 0)

def dropEmail (t : Table) : Except Refusal Table :=
  if t.hasEmail then .ok { t with hasEmail := false } else .error .noEmailToDrop

end Table

/-! ## Reading -/

/-- Reads the value of a column, which is known by its number. -/
def readColumn (column : Nat) (cell : Cell) : Except AccessError String :=
  cell.decode.mapError (.undecodable column)

def Row.account (r : Row) : Except AccessError Account := do
  return ⟨← readColumn 0 r.login, ← readColumn 1 r.email⟩

/-- The accounts in the order of their ids, or the first fault in that order. -/
def Table.accounts (t : Table) : Except AccessError (List Account) :=
  if t.hasEmail then t.rows.mapM Row.account else .error (.refused .noEmailInQuery)

end AccountCensus.Store
