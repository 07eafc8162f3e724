import AccountCensus.Toml.Numeral

/-!
# TOML dates and times

A date, a time, or a date and a time with or without an offset. Only their validity matters here:
days fit their month, and the other parts are in range.
-/

namespace AccountCensus.Toml.Reader

/-- A number of `n` digits. -/
def number (n : Nat) : Reader Nat := do
  pure (numeral 10 (← times Char.isDigit n))

/-- A number of `n` digits within bounds. -/
def numberWithin (n low high : Nat) : Reader Nat := do
  let k ← number n
  if low ≤ k && k ≤ high then pure k else failure

def isLeapYear (year : Nat) : Bool := year % 4 == 0 && (year % 100 != 0 || year % 400 == 0)

def daysIn (year month : Nat) : Nat :=
  if month = 2 then (if isLeapYear year then 29 else 28)
  else if month = 4 || month = 6 || month = 9 || month = 11 then 30
  else 31

def date : Reader Unit := do
  let year ← number 4
  char '-'
  let month ← numberWithin 2 1 12
  char '-'
  let _ ← numberWithin 2 1 (daysIn year month)

def hourAndMinute : Reader Unit := do
  let _ ← numberWithin 2 0 23
  char ':'
  let _ ← numberWithin 2 0 59

/-- A time of day. A second may be a leap second. -/
def timeOfDay : Reader Unit := do
  hourAndMinute
  char ':'
  let _ ← numberWithin 2 0 60
  let _ ← option (do char '.'; skip Char.isDigit; run Char.isDigit)

def numericOffset : Reader Unit := do
  skip fun c => c == '+' || c == '-'
  hourAndMinute

def offset : Reader Unit := (skip fun c => c == 'Z' || c == 'z') <|> numericOffset

/-- The time behind a date. -/
def timePart : Reader Unit := do
  skip fun c => c == 'T' || c == 't' || c == ' '
  timeOfDay
  let _ ← option offset

def dateAndTime : Reader Unit := do
  date
  let _ ← option timePart

def moment : Reader Unit := dateAndTime <|> timeOfDay

end AccountCensus.Toml.Reader
