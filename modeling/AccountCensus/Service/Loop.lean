import AccountCensus.Service.History

/-!
# The collection loop

A loop makes a census when it first runs and then one per interval, until its token is cancelled.
The service's clock counts milliseconds; the times at which ticks fall due are kept in
nanoseconds, and a tick is served at the first millisecond that is not before it. A tick that is
served more than 5 ms late makes the next one due one interval after it was served, any other one
interval after it was due, so that a slow census causes no burst of later ones.
-/

namespace AccountCensus.Service

def nanosPerMilli : Nat := 1000000

/-- How late a tick may be served without moving the later ones. -/
def tolerance : Nat := 5 * nanosPerMilli

/-- The due time after the tick that was due at `due` and is served at millisecond `now`. -/
def nextDue (interval : Duration) (due now : Nat) : Nat :=
  if due + tolerance < now * nanosPerMilli then now * nanosPerMilli + interval.nanos
  else due + interval.nanos

inductive Phase where
  /-- Started, and not yet run. -/
  | spawned
  /-- Waits for the tick that is due at a nanosecond. -/
  | waiting (due : Nat)
  /-- Has a fetch in flight that will end at a millisecond; the next tick is known already. -/
  | fetching (due finish : Nat) (ending : Ending)
  | stopped
  | panicked

structure Loop where
  phase : Phase
  /-- The token that the loop watches is cancelled. -/
  cancelled : Bool

namespace Loop

/-- The loop can still do something. -/
def isLive (l : Loop) : Bool :=
  match l.phase with
  | .stopped | .panicked => false
  | _ => true

/-- The millisecond, not before `now`, at which a live loop does something next. A cancelled one
does so at once. -/
def wakeTime? (now : Nat) (l : Loop) : Option Nat :=
  match l.phase with
  | .spawned => some now
  | .waiting due => some (if l.cancelled then now else max now (Duration.mk due).ceilMillis)
  | .fetching _ finish _ => some (if l.cancelled then now else max now finish)
  | .stopped | .panicked => none

/-- More than the number of times that the loop can wake before a nanosecond. -/
def rank (horizon : Nat) (l : Loop) : Nat :=
  match l.phase with
  | .spawned => 2 * horizon + 3
  | .waiting due => 2 * (horizon - due) + 1
  | .fetching due _ _ => 2 * (horizon - due) + 2
  | .stopped | .panicked => 0

end Loop

end AccountCensus.Service
