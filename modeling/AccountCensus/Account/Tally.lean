import AccountCensus.Account.Basic

/-!
# The tally of a census

Accounts are scanned in order. One whose folded email was seen before is a duplicate, and its
login is then not recorded; otherwise its email is recorded, and it is a duplicate if its folded
login was recorded before. Apart from that, accounts with a text free of capitals are counted.
-/

namespace AccountCensus

/-- The result of one census. -/
structure Tally where
  duplicates : Nat := 0
  mixedCased : Nat := 0
deriving DecidableEq, Repr, Inhabited

namespace Tally

def hasDuplicates (t : Tally) : Bool := t.duplicates > 0

/-- The has-duplicates flag as a number. -/
def flag (t : Tally) : Nat := if t.hasDuplicates then 1 else 0

end Tally

/-- A census under way: the folded texts recorded so far, and the counts. -/
structure Scan where
  emails : List String := []
  logins : List String := []
  tally : Tally := {}

namespace Scan

/-- Counts an account that has a text free of capitals. -/
def countPlain (s : Scan) (a : Account) : Scan :=
  { s with tally.mixedCased := s.tally.mixedCased + (if a.isPlain then 1 else 0) }

def countDuplicate (s : Scan) : Scan :=
  { s with tally.duplicates := s.tally.duplicates + 1 }

/-- Takes one more account into the census. -/
def add (s : Scan) (a : Account) : Scan :=
  let s := s.countPlain a
  if s.emails.contains a.foldedEmail then s.countDuplicate
  else
    let s := { s with emails := a.foldedEmail :: s.emails }
    if s.logins.contains a.foldedLogin then s.countDuplicate
    else { s with logins := a.foldedLogin :: s.logins }

/-- Takes accounts into the census in their order. -/
def addAll (s : Scan) (accounts : List Account) : Scan := accounts.foldl add s

/-- The tallies after each further account. -/
def tallies (s : Scan) : List Account → List Tally
  | [] => []
  | a :: rest => (s.add a).tally :: (s.add a).tallies rest

end Scan

/-- The tally of a list of accounts. -/
def tally (accounts : List Account) : Tally := (Scan.addAll {} accounts).tally

end AccountCensus
