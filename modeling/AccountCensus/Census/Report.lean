import AccountCensus.Account.Tally

/-!
# The usage report

A report gives the numbers of a tally under fixed keys, in ascending order of the keys.
-/

namespace AccountCensus

/-- Numbers under their keys. -/
abbrev Report := List (String × Nat)

namespace Report

def ofTally (t : Tally) : Report := [
  ("stats.users.duplicate_user_entries", t.duplicates),
  ("stats.users.has_duplicate_user_entries", t.flag),
  ("stats.users.mixed_cased_users", t.mixedCased)]

def entryText : String × Nat → String
  | (key, value) => "\"" ++ key ++ "\":" ++ toString value

/-- The report as a JSON object without blanks. -/
def json (r : Report) : String := "\x7b" ++ String.intercalate "," (r.map entryText) ++ "\x7d"

end Report

end AccountCensus
