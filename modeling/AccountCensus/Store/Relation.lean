import AccountCensus.Store.Table

/-!
# What the name of the account table stands for

A database usually has a table under that name. It can also have none, or a view, which can be
read but not changed.
-/

namespace AccountCensus.Store

inductive Relation where
  | absent
  | table (table : Table)
  | view (accounts : List Account)

namespace Relation

def accounts : Relation → Except AccessError (List Account)
  | absent => .error (.refused .noAccountTable)
  | table t => t.accounts
  | view accounts => .ok accounts

/-- Changes the rows of a table. -/
def change {α : Type} (f : Table → Except Refusal (Table × α)) :
    Relation → Except Refusal (Relation × α)
  | absent => .error .noAccountTable
  | table t => (f t).map fun (t, answer) => (.table t, answer)
  | view _ => .error .accountsAreView

def drop : Relation → Except Refusal Relation
  | absent => .error .noAccountTable
  | table _ => .ok .absent
  | view _ => .error .viewIsNoTable

def dropEmail : Relation → Except Refusal Relation
  | absent => .error .noAccountTable
  | table t => t.dropEmail.map .table
  | view _ => .error .viewHasNoColumnToDrop

end Relation

end AccountCensus.Store
