import AccountCensus.Account.Fold

/-!
# Accounts

A census looks at two texts of an account, its login and its email. Both are taken as they stand
in the store; `Account.login` and `Account.email` may be empty.
-/

namespace AccountCensus

/-- One row of the account table, as a census sees it. -/
structure Account where
  login : String
  email : String
deriving DecidableEq, Repr, Inhabited

namespace Account

def foldedLogin (a : Account) : String := fold a.login

def foldedEmail (a : Account) : String := fold a.email

/-- One of the two texts is written without capitals. Dashboards know the number of such accounts
as the mixed-cased ones. -/
def isPlain (a : Account) : Bool := a.foldedEmail == a.email || a.foldedLogin == a.login

end Account

end AccountCensus
