import AccountCensus.Proofs.Foreground

/-!
# Failures in the journal

Why a pass failed can be told without the journal: by its fetch, which is the one that was noted
last of the same loop or of the same foreground, and by the time-out (`Fetch.failure?`). `failures`
lists the failed passes of a history with those who drove them. `AllCoherent.alarms` says that the
warnings and errors that a history tells are these failures, one event each, in the same order,
without those of direct calls. The journal of a run tells its history and, beside it, the complaints
of the encoder about a broken collector (`journal_of_run`).
-/

namespace AccountCensus

namespace Event

/-- A warning or an error. -/
def isAlarm (e : Event) : Bool := e.level = .warning || e.level = .error

def isLoopWarning (e : Event) : Bool :=
  e.level = .warning && e.message = "Failed to get login stats metrics"

def isReportError (e : Event) : Bool :=
  e.level = .error && e.message = "Failed to get login stats"

/-- Tells of a failed pass. -/
def isFailure (e : Event) : Bool := e.isLoopWarning || e.isReportError

/-- The encoder complains. -/
def isComplaint : Event → Bool
  | encodingFailed _ => true
  | _ => false

/-- A loop has begun to run. -/
def isStart (e : Event) : Bool := e.message = "Login stats collection started"

/-- A loop has stopped. -/
def isStop (e : Event) : Bool := e.message = "Login stats collection stopped"

section Messages

variable (e : CensusError) (n : ℕ) (t : Tally) (error : String)

@[simp] theorem message_loopStarted :
    (loopStarted n).message = "Login stats collection started" := rfl

@[simp] theorem message_loopStopped :
    loopStopped.message = "Login stats collection stopped" := rfl

@[simp] theorem message_collected : (collected n t).message = "Login stats collected" := rfl

@[simp] theorem message_loopCensusFailed :
    (loopCensusFailed e).message = "Failed to get login stats metrics" := rfl

@[simp] theorem message_requestedCensusFailed :
    (requestedCensusFailed e).message = "Failed to get login stats" := rfl

@[simp] theorem message_encodingFailed :
    (encodingFailed error).message = "Failed to encode Prometheus metrics" := rfl

@[simp] theorem level_loopCensusFailed : (loopCensusFailed e).level = .warning := rfl

@[simp] theorem level_requestedCensusFailed : (requestedCensusFailed e).level = .error := rfl

end Messages

/-- The encoder tells of no failed pass. -/
theorem isFailure_of_isComplaint {e : Event} (h : e.isComplaint = true) : e.isFailure = false := by
  cases e with
  | encodingFailed error => simp [isFailure, isLoopWarning, isReportError]
  | _ => cases h

theorem eq_of_mem_ofExposition {r : Gauge.Registry} {e : Event} (h : e ∈ ofExposition r) :
    r.broken = true ∧ e = .encodingFailed r.complaint := by
  unfold ofExposition at h
  split at h
  · exact ⟨‹_›, List.mem_singleton.mp h⟩
  · cases h

end Event

namespace Service

open Relation

/-! ## Failed passes -/

/-- Why a pass with this fetch fails, if nobody cancels it. -/
def Fetch.failure? (timeout : Duration) (f : Fetch) : Option CensusError :=
  match f.answer with
  | none => some ⟨.timeout timeout⟩
  | some fetched =>
    if timeout.ceilMillis < f.delay then some ⟨.timeout timeout⟩
    else
      match fetched with
      | .ok _ => none
      | .error cause => some ⟨cause⟩

/-- A pass that fails: who drives it, and why it fails. -/
abbrev Failure := Census.Driver × CensusError

/-- The failure of the pass that ends with an entry. -/
def Record.failure? (sources : List Source) (r : Record) (before : List Record) :
    Option Failure :=
  match r.happening with
  | .censusEnded driver _ =>
    ((lastFetch? (trace r.collector r.loop before)).bind
      (Fetch.failure? (timeoutOf sources r.collector))).map (driver, ·)
  | _ => none

/-- The failures of all passes, latest first. -/
def failures (sources : List Source) : List Record → List Failure
  | [] => []
  | r :: rs => (r.failure? sources rs).toList ++ failures sources rs

/-- The event that tells of a failure. A direct call leaves it to its caller. -/
def Failure.event? : Failure → Option Event
  | (.loop, e) => some (.loopCensusFailed e)
  | (.report, e) => some (.requestedCensusFailed e)
  | (.call, _) => none

/-- How a fetch ends says how its pass fails. -/
theorem Fetch.failure?_eq (timeout : Duration) (f : Fetch) : f.failure? timeout =
    match (f.ending timeout).fetched with
    | .ok _ => none
    | .error cause => some ⟨cause⟩ := by
  unfold failure? ending
  cases f.answer with
  | none => rfl
  | some fetched =>
      by_cases hd : f.delay ≤ timeout.ceilMillis
      · simp only [if_pos hd, if_neg (not_lt.mpr hd)]
      · simp only [if_neg hd, if_pos (not_le.mp hd)]
        rfl

/-- Of what a history tells, the alarms are about failed passes, and nothing is a complaint. -/
theorem isAlarm_of_mem_events {records : List Record} {e : Event} (h : e ∈ events records) :
    e.isAlarm = e.isFailure ∧ e.isComplaint = false := by
  obtain ⟨r, -, hr⟩ := List.mem_flatMap.mp h
  cases hh : r.happening with
  | loopStarted interval =>
      rw [hh] at hr
      obtain rfl := List.mem_singleton.mp hr
      exact ⟨rfl, rfl⟩
  | loopStopped =>
      rw [hh] at hr
      obtain rfl := List.mem_singleton.mp hr
      exact ⟨rfl, rfl⟩
  | censusEnded driver fetched =>
      rw [hh] at hr
      cases fetched with
      | ok accounts =>
          obtain rfl := List.mem_singleton.mp hr
          exact ⟨rfl, rfl⟩
      | error cause =>
          cases driver with
          | call => cases hr
          | _ =>
              obtain rfl := List.mem_singleton.mp hr
              exact ⟨rfl, rfl⟩
  | _ =>
      rw [hh] at hr
      cases hr

/-- The alarms at the end of a pass. -/
theorem alarms_of_census (driver : Census.Driver) (timeout : Duration) (f : Fetch) :
    (Census.events driver (f.ending timeout).fetched).filter Event.isAlarm =
      ((f.failure? timeout).map (driver, ·)).toList.filterMap Failure.event? := by
  rw [Fetch.failure?_eq]
  cases (f.ending timeout).fetched with
  | ok accounts => rfl
  | error cause => cases driver <;> rfl

/-! ## Coherent histories -/

/-- Every trace of a history is coherent. -/
def AllCoherent (sources : List Source) (records : List Record) : Prop :=
  ∀ (c : ℕ) (loop : Option ℕ),
    Coherent (timeoutOf sources c) loop.isSome (trace c loop records)

section AllCoherent

variable {sources : List Source} {r : Record} {records newer : List Record}

theorem AllCoherent.head (h : AllCoherent sources (r :: records)) :
    Tells (timeoutOf sources r.collector) r.loop.isSome r.time
      (trace r.collector r.loop records) r.happening := by
  have hr := h r.collector r.loop
  rw [trace_cons_self] at hr
  exact hr.1

theorem AllCoherent.older (h : AllCoherent sources (newer ++ records)) :
    AllCoherent sources records := by
  intro c loop
  have hc := h c loop
  rw [trace_append] at hc
  exact hc.older

theorem AllCoherent.tail (h : AllCoherent sources (r :: records)) :
    AllCoherent sources records := by
  rw [← List.singleton_append] at h
  exact h.older

/-- The alarms of an entry are its failure. -/
theorem AllCoherent.alarms_head (h : AllCoherent sources (r :: records)) :
    r.happening.events.filter Event.isAlarm =
      (r.failure? sources records).toList.filterMap Failure.event? := by
  have htells := h.head
  unfold Record.failure?
  cases hr : r.happening with
  | censusEnded driver fetched =>
      rw [hr] at htells
      obtain ⟨-, b, f, older, htrace, -, rfl⟩ := htells
      rw [htrace]
      exact alarms_of_census driver _ f
  | _ => rfl

/-- **The alarms of a history are its failures.** -/
theorem AllCoherent.alarms (h : AllCoherent sources records) :
    (events records.reverse).filter Event.isAlarm =
      (failures sources records).reverse.filterMap Failure.event? := by
  induction records with
  | nil => rfl
  | cons r records ih =>
      have hsplit : events (r :: records).reverse =
          events records.reverse ++ r.happening.events := by
        simp [events, List.flatMap_append]
      have hsingle : (r.failure? sources records).toList.reverse =
          (r.failure? sources records).toList := by
        cases r.failure? sources records <;> rfl
      rw [hsplit, List.filter_append, ih h.tail, h.alarms_head, failures, List.reverse_append,
        List.filterMap_append, hsingle]

end AllCoherent

/-! ## The journal of a run -/

theorem since_of_append {s s' : Service} {new : List Record}
    (h : s'.history = new ++ s.history) : s'.since s = new.reverse := by
  rw [since, h, List.length_append, Nat.add_sub_cancel, List.take_left']
  rfl

theorem since_of_steps {s s' : Service} (h : ReflTransGen Step s s') :
    s'.history = (s'.since s).reverse ++ s.history := by
  obtain ⟨new, hnew, -⟩ := history_of_steps h
  rw [since_of_append hnew, List.reverse_reverse, hnew]

theorem filter_complaints {p : Event → Bool} (hp : ∀ e, e.isComplaint = true → p e = false)
    (s : Service) (command : Command) : (s.complaints command).filter p = [] := by
  rw [List.filter_eq_nil_iff]
  intro e he
  unfold complaints at he
  split at he
  · rw [(Event.eq_of_mem_ofExposition he).2, hp (.encodingFailed _) rfl]
    exact Bool.false_ne_true
  · cases he

/-- **The journal of a run tells its history**, apart from the complaints of the encoder. -/
theorem journal_of_run (foreign : Gauge.Registry) (sources : List Source)
    (commands : List Command) {p : Event → Bool}
    (hp : ∀ e, e.isComplaint = true → p e = false) :
    (((create foreign sources).run commands).flatMap (·.events)).filter p =
      (events ((create foreign sources).after commands).history.reverse).filter p := by
  induction commands using List.reverseRecOn with
  | nil => rfl
  | append_singleton commands command ih =>
      have hstep := steps_of_strides (perform_strides
        (after_orderly (create_orderly foreign sources) commands) command)
      rw [run_snoc, List.flatMap_append, List.filter_append, ih, after_snoc, since_of_steps hstep,
        List.reverse_append, List.reverse_reverse, events, events, List.flatMap_append,
        List.filter_append, List.flatMap_singleton, observe, List.filter_append,
        filter_complaints hp, List.append_nil]
      rfl

/-- Without the complaints nothing but the history is told. -/
theorem journal_without_complaints (foreign : Gauge.Registry) (sources : List Source)
    (commands : List Command) :
    (((create foreign sources).run commands).flatMap (·.events)).filter (!·.isComplaint) =
      events ((create foreign sources).after commands).history.reverse := by
  rw [journal_of_run foreign sources commands fun e he => by simp [he], List.filter_eq_self]
  intro e he
  simp [(isAlarm_of_mem_events he).2]

/-- What holds of what is seen of each command, holds of all that is seen of a run. -/
theorem run_forall {P : Observation → Prop} {s : Service}
    (h : ∀ (p : List Command) (command : Command),
      P ((s.after p).observe ((s.after p).perform command).1 command
        ((s.after p).perform command).2))
    (commands : List Command) : ∀ o ∈ s.run commands, P o := by
  induction commands using List.reverseRecOn with
  | nil =>
      intro o ho
      cases ho
  | append_singleton commands command ih =>
      intro o ho
      rw [run_snoc, after_snoc] at ho
      rcases List.mem_append.mp ho with ho | ho
      · exact ih o ho
      · rw [List.mem_singleton.mp ho]
        exact h commands command

/-- The encoder complains of a foreign collector, or of nothing. -/
theorem complaint_of_run (foreign : Gauge.Registry) (sources : List Source)
    (commands : List Command) : ∀ o ∈ (create foreign sources).run commands, ∀ e ∈ o.events,
      e.isComplaint = true → foreign.broken = true ∧ e = .encodingFailed foreign.complaint := by
  refine run_forall (fun p command e he hcomplaint => ?_) commands
  rcases List.mem_append.mp he with he | he
  · rw [(isAlarm_of_mem_events he).2] at hcomplaint
    cases hcomplaint
  · rw [complaints_eq] at he
    split at he
    · exact Event.eq_of_mem_ofExposition he
    · cases he

/-- Without a broken collector the journal is what the history tells. -/
theorem journal_of_unbroken {foreign : Gauge.Registry} (hbroken : foreign.broken = false)
    (sources : List Source) (commands : List Command) :
    ((create foreign sources).run commands).flatMap (·.events) =
      events ((create foreign sources).after commands).history.reverse := by
  rw [← journal_without_complaints, List.filter_eq_self.mpr]
  intro e he
  obtain ⟨o, ho, heo⟩ := List.mem_flatMap.mp he
  cases hcomplaint : e.isComplaint with
  | false => rfl
  | true =>
      rw [(complaint_of_run foreign sources commands o ho e heo hcomplaint).1] at hbroken
      cases hbroken

/-! ## Errors and answers -/

/-- The errors that the journal tells of some entries. -/
def errorsOf (records : List Record) : List Event :=
  (events records.reverse).filter Event.isReportError

theorem errorsOf_append (newer older : List Record) :
    errorsOf (newer ++ older) = errorsOf older ++ errorsOf newer := by
  simp [errorsOf, events]

/-- Errors are told of the foreground only. -/
theorem AllCoherent.errors {sources : List Source} {records : List Record}
    (h : AllCoherent sources records) : errorsOf records = errorsOf (foreground records) := by
  induction records with
  | nil => rfl
  | cons r records ih =>
      have htail := ih h.tail
      have hsplit : errorsOf (r :: records) =
          errorsOf records ++ r.happening.events.filter Event.isReportError := by
        simp [errorsOf, events]
      rw [hsplit, htail]
      cases hloop : r.loop with
      | none =>
          have hkept : foreground (r :: records) = r :: foreground records :=
            List.filter_cons_of_pos (by simp [hloop])
          rw [hkept]
          simp [errorsOf, events]
      | some k =>
          have hleft : foreground (r :: records) = foreground records :=
            List.filter_cons_of_neg (by simp [hloop])
          have hnone : r.happening.events.filter Event.isReportError = [] := by
            have htells := h.head
            cases hr : r.happening with
            | censusEnded driver fetched =>
                rw [hr, hloop] at htells
                obtain rfl := htells.1.mpr rfl
                cases fetched <;> rfl
            | _ => rfl
          rw [hleft, hnone, List.append_nil]

/-- The error that the journal tells of a census in the foreground. -/
def reportError? (driver : Census.Driver) (fetched : Fetched) : Option Event :=
  match driver, fetched with
  | .report, .error cause => some (.requestedCensusFailed ⟨cause⟩)
  | _, _ => none

theorem errorsOf_pass (c : ℕ) (timeout : Duration) (driver : Census.Driver) (t : ℕ) (f : Fetch) :
    errorsOf (inForeground c (wholePass timeout driver t f)) =
      (reportError? driver (f.ending timeout).fetched).toList := by
  have hevents : events (inForeground c (wholePass timeout driver t f)).reverse =
      Census.events driver (f.ending timeout).fetched := by
    simp [events, inForeground, wholePass, Happening.events]
  rw [errorsOf, hevents]
  cases (f.ending timeout).fetched with
  | ok accounts => cases driver <;> rfl
  | error cause => cases driver <;> rfl

/-- An answer to a request for a report that tells of a failure. The answer to HEAD has no body. -/
def Answer.Reports (e : CensusError) : Answer → Prop
  | .report result => result = .error e
  | .response r => r.status = 500 ∧ (r.body = e.message ∨ r.body = "")
  | _ => False

/-- What the journal tells of a census and what the answer tells of it is the same. -/
theorem Command.tell_reports {command : Command} {c : ℕ} {driver : Census.Driver}
    (hcensus : command.census? = some (c, driver)) (fetched : Fetched) :
    (reportError? driver fetched = none ∧ (command.tell fetched).isFailedReport = false) ∨
    ∃ e, reportError? driver fetched = some (.requestedCensusFailed e) ∧
      (command.tell fetched).isFailedReport = true ∧ (command.tell fetched).Reports e := by
  cases command with
  | get d =>
      obtain ⟨-, rfl⟩ := Prod.mk.inj (Option.some.inj hcensus)
      exact .inl ⟨rfl, rfl⟩
  | collect d =>
      obtain ⟨-, rfl⟩ := Prod.mk.inj (Option.some.inj hcensus)
      cases fetched with
      | ok accounts => exact .inl ⟨rfl, rfl⟩
      | error cause => exact .inr ⟨⟨cause⟩, rfl, rfl, rfl⟩
  | request d r =>
      simp only [Command.census?] at hcensus
      split at hcensus
      · obtain ⟨-, rfl⟩ := Prod.mk.inj (Option.some.inj hcensus)
        cases fetched with
        | ok accounts =>
            refine .inl ⟨rfl, ?_⟩
            simp only [Command.tell, Http.Response.forMethod]
            split <;> rfl
        | error cause =>
            refine .inr ⟨⟨cause⟩, rfl, ?_⟩
            simp only [Command.tell, Http.Response.forMethod]
            split
            · exact ⟨rfl, rfl, .inr rfl⟩
            · exact ⟨rfl, rfl, .inl rfl⟩
      · cases hcensus
  | _ => cases hcensus

/-- **An error is told exactly if the answer is a failed report.** -/
theorem errorsOf_perform {s : Service} {command : Command} {new : List Record}
    (hnew : (s.perform command).1.history = new ++ s.history) :
    (errorsOf (foreground new) = [] ∧ (s.perform command).2.isFailedReport = false) ∨
    ∃ e, errorsOf (foreground new) = [.requestedCensusFailed e] ∧
      (s.perform command).2.isFailedReport = true ∧ (s.perform command).2.Reports e := by
  have hsplit : foreground (s.perform command).1.history =
      foreground new ++ foreground s.history := by
    rw [hnew, foreground, List.filter_append]
    rfl
  rcases perform_foreground s command with ⟨hsame, ha⟩ | ⟨c, driver, x, hcensus, -, hpass, ha⟩
  · rw [hsame] at hsplit
    rw [List.self_eq_append_left.mp hsplit]
    exact .inl ⟨rfl, ha⟩
  · rw [hpass] at hsplit
    rw [← List.append_cancel_right hsplit, errorsOf_pass, ha]
    rcases Command.tell_reports hcensus (x.beginFetch.2.ending x.timeout).fetched with
      ⟨herror, hanswer⟩ | ⟨e, herror, hanswer, hreports⟩
    · rw [herror]
      exact .inl ⟨rfl, hanswer⟩
    · rw [herror]
      exact .inr ⟨e, rfl, hanswer, hreports⟩

theorem after_allCoherent (foreign : Gauge.Registry) (sources : List Source)
    (commands : List Command) :
    AllCoherent sources ((create foreign sources).after commands).history :=
  fun c loop => after_coherent foreign sources commands c loop

/-- What is seen of a command holds one error, or none, as its answer says. -/
def Observation.ToldOnce (o : Observation) : Prop :=
  (o.events.filter Event.isReportError = [] ∧ o.answer.isFailedReport = false) ∨
  ∃ e, o.events.filter Event.isReportError = [.requestedCensusFailed e] ∧
    o.answer.isFailedReport = true ∧ o.answer.Reports e

theorem observe_toldOnce (foreign : Gauge.Registry) (sources : List Source)
    (commands : List Command) (command : Command) :
    let s := (create foreign sources).after commands
    (s.observe (s.perform command).1 command (s.perform command).2).ToldOnce := by
  intro s
  have hs : s.Orderly := after_orderly (create_orderly foreign sources) commands
  have hnew := since_of_steps (steps_of_strides (perform_strides hs command))
  generalize hsince : ((s.perform command).1.since s).reverse = new at hnew
  have hcoherent : AllCoherent sources (s.perform command).1.history := by
    have h := after_allCoherent foreign sources (commands ++ [command])
    rwa [after_snoc] at h
  -- the errors of before are those of the foreground of before, and so the new ones are
  have herrors : errorsOf new = errorsOf (foreground new) := by
    have hall := hcoherent.errors
    rw [hnew] at hall hcoherent
    rw [foreground, List.filter_append, errorsOf_append, errorsOf_append,
      hcoherent.older.errors] at hall
    exact List.append_cancel_left hall
  have hevents : (s.observe (s.perform command).1 command (s.perform command).2).events.filter
      Event.isReportError = errorsOf (foreground new) := by
    have hquiet : ∀ e : Event, e.isComplaint = true → e.isReportError = false := fun e he =>
      (Bool.or_eq_false_iff.mp (Event.isFailure_of_isComplaint he)).2
    rw [← herrors, ← hsince, errorsOf, List.reverse_reverse, observe, List.filter_append,
      filter_complaints hquiet, List.append_nil]
  unfold Observation.ToldOnce
  rw [hevents]
  exact errorsOf_perform hnew

theorem countP_errors {seen : List Observation} (h : ∀ o ∈ seen, o.ToldOnce) :
    (seen.flatMap (·.events)).countP Event.isReportError =
      seen.countP fun o => o.answer.isFailedReport := by
  induction seen with
  | nil => rfl
  | cons o seen ih =>
      have hone : o.events.countP Event.isReportError =
          if o.answer.isFailedReport = true then 1 else 0 := by
        rw [List.countP_eq_length_filter]
        rcases h o List.mem_cons_self with ⟨hnone, ha⟩ | ⟨e, hsome, ha, -⟩
        · rw [hnone, ha]
          rfl
        · rw [hsome, ha]
          rfl
      rw [List.flatMap_cons, List.countP_append, List.countP_cons,
        ih fun o' ho' => h o' (List.mem_cons_of_mem _ ho'), hone, Nat.add_comm]

/-- The events of one kind are as many as the failures of one kind. -/
theorem countP_failures {journal : List Event} {fs : List Failure} {p : Event → Bool}
    {q : Failure → Bool}
    (h : journal.filter Event.isFailure = fs.reverse.filterMap Failure.event?)
    (hp : ∀ e, p e = true → e.isFailure = true)
    (hq : ∀ f, ((Failure.event? f).map p).getD false = q f) :
    journal.countP p = fs.countP q := by
  have hfilter : journal.countP p = (journal.filter Event.isFailure).countP p := by
    rw [List.countP_filter]
    congr 1
    funext e
    cases he : p e with
    | false => rfl
    | true => rw [hp e he, Bool.and_self]
  rw [hfilter, h, List.countP_filterMap, List.countP_reverse]
  congr 1
  exact funext hq

/-! ## The journal of a loop -/

/-- The loop has begun to run. -/
def Loop.hasRun (l : Loop) : Bool :=
  match l.phase with
  | .spawned => false
  | _ => true

/-- What the journal says of a trace. -/
def journalOf (tr : List (ℕ × Happening)) : List Event := tr.reverse.flatMap (·.2.events)

theorem events_loop (c k : ℕ) (records : List Record) :
    events (records.reverse.filter fun r => r.collector = c ∧ r.loop = some k) =
      journalOf (trace c (some k) records) := by
  induction records with
  | nil => rfl
  | cons r records ih =>
      rw [List.reverse_cons, List.filter_append]
      by_cases hr : r.collector = c ∧ r.loop = some k
      · have htrace : trace c (some k) (r :: records) =
            (r.time, r.happening) :: trace c (some k) records :=
          List.filterMap_cons_some (if_pos hr)
        rw [htrace, List.filter_singleton, decide_eq_true hr, cond_true]
        simp only [journalOf, events, List.flatMap_append, List.reverse_cons] at ih ⊢
        rw [ih]
        rfl
      · have htrace : trace c (some k) (r :: records) = trace c (some k) records :=
          List.filterMap_cons_none (if_neg hr)
        rw [htrace, List.filter_singleton, decide_eq_false hr, cond_false, List.append_nil]
        exact ih

@[simp] theorem journalOf_cons (e : ℕ × Happening) (tr : List (ℕ × Happening)) :
    journalOf (e :: tr) = journalOf tr ++ e.2.events := by
  simp [journalOf]

/-- The end of a pass is neither the beginning nor the end of a loop. -/
theorem census_events_within (driver : Census.Driver) (fetched : Fetched) :
    (Census.events driver fetched).filter Event.isStart = [] ∧
      (Census.events driver fetched).filter Event.isStop = [] := by
  cases fetched with
  | ok accounts => simp [Census.events, Event.isStart, Event.isStop]
  | error cause => cases driver <;> simp [Census.events, Event.isStart, Event.isStop]

/-- What the journal tells of the beginning of a loop, and of its end. -/
def Phase.startEvents (interval : Duration) : Phase → List Event
  | .spawned => []
  | _ => [.loopStarted interval.seconds]

def Phase.stopEvents : Phase → List Event
  | .stopped => [.loopStopped]
  | _ => []

/-- **The journal tells once that a loop has begun to run, and once that it has stopped.** -/
theorem Course.journal {interval timeout : Duration} {phase : Phase}
    {tr : List (ℕ × Happening)} (h : Course interval timeout phase tr) :
    (journalOf tr).filter Event.isStart = phase.startEvents interval ∧
      (journalOf tr).filter Event.isStop = phase.stopEvents := by
  induction h with
  | spawned => exact ⟨rfl, rfl⟩
  | panicked =>
      simp [journalOf, Happening.events, Event.isStart, Event.isStop, Phase.startEvents,
        Phase.stopEvents]
  | started =>
      simp [journalOf, Happening.events, Event.isStart, Event.isStop, Phase.startEvents,
        Phase.stopEvents]
  | @passed t due due' f tr h ih =>
      obtain ⟨hstarted, hstopped⟩ := census_events_within .loop (f.ending timeout).fetched
      simpa [wholePass, Happening.events, hstarted, hstopped, Phase.startEvents,
        Phase.stopEvents] using ih
  | fetching _ ih => simpa [Happening.events, Phase.startEvents,
        Phase.stopEvents] using ih
  | stopped _ ih =>
      simpa [Happening.events, Event.isStart, Event.isStop, Phase.startEvents,
        Phase.stopEvents] using ih
  | gaveUp _ ih =>
      simpa [Happening.events, Event.isStart, Event.isStop, Phase.startEvents,
        Phase.stopEvents] using ih

/-- An alarm carries the text of its failure, and the code of a time-out exactly if it is one. -/
theorem alarm_fields {f : Failure} {e : Event} (h : Failure.event? f = some e) :
    (e = .loopCensusFailed f.2 ∨ e = .requestedCensusFailed f.2) ∧
      e.fields = [("error", f.2.message), ("code", "\"" ++ f.2.code ++ "\"")] ∧
      (f.2.code = "fetch_timeout" ↔ ∃ after, f.2.cause = .timeout after) := by
  obtain ⟨driver, err⟩ := f
  have hcode : err.code = "fetch_timeout" ↔ ∃ after, err.cause = .timeout after := by
    unfold CensusError.code
    cases err.cause <;> simp
  cases driver with
  | loop =>
      obtain rfl := Option.some.inj h
      exact ⟨.inl rfl, rfl, hcode⟩
  | report =>
      obtain rfl := Option.some.inj h
      exact ⟨.inr rfl, rfl, hcode⟩
  | call => cases h

/-! ## Runs -/

/-- The journal of a loop that ticks. -/
theorem loop_journal (foreign : Gauge.Registry) (sources : List Source) (commands : List Command)
    {c k : ℕ} {x : Collector} {l : Loop}
    (hx : ((create foreign sources).after commands).collectors[c]? = some x)
    (hl : x.loops[k]? = some l) (hz : x.interval.nanos ≠ 0) :
    let own := events (((create foreign sources).after commands).history.reverse.filter fun r =>
      r.collector = c ∧ r.loop = some k)
    (l.isLive = false → l.cancelled = true) ∧
    own.filter Event.isStart = (if l.hasRun then [.loopStarted x.interval.seconds] else []) ∧
    own.filter Event.isStop = (if l.isLive then [] else [.loopStopped]) := by
  intro own
  have h₀ := create_orderly foreign sources
  have hfits := ((after_orderly h₀ commands).valid c x hx).fits l (List.mem_of_getElem? hl)
  have hlife := life_of_steps h₀ (create_fresh foreign sources) (after_steps h₀ commands)
    (sees_of_loop hx hl)
  obtain ⟨hstarted, hstopped⟩ := (after_course foreign sources commands hx hl).journal
  rw [← events_loop] at hstarted hstopped
  refine ⟨cancelled_of_ended hlife hfits hz, ?_, ?_⟩
  · rw [hstarted, Loop.hasRun]
    cases l.phase <;> rfl
  · rw [hstopped]
    unfold Loop.isLive
    cases hp : l.phase with
    | panicked =>
        rw [hp] at hfits
        exact absurd hfits hz
    | _ => rfl

/-- **Failures are told on one channel, once.** After any commands to a service:

- the journal tells the history, apart from complaints of the encoder;
- what it tells of failed passes are the failures of all passes, in the same order: a warning for a
  pass of a loop, an error for a pass that was asked for as a report, and nothing for a direct call.
  So there are as many of these warnings as passes of loops that failed, and as many of these errors
  as reports that failed;
- of each command there is one such error if its answer is that a report failed, for the same
  reason, and none otherwise;
- such a warning or error carries the text of the failure and its code, which is that of a time-out
  exactly if the failure is one;
- there are no other warnings and errors, but for those about a broken collector among the foreign
  metrics;
- the passes in the foreground all end by themselves, and those of a loop as well, but for a last
  one that was given up when the loop stopped. A loop that ticks ends only if its token was
  cancelled, and the journal tells once that it has begun to run and, exactly if it has ended, once
  that it has stopped. -/
theorem failures_are_told_once (foreign : Gauge.Registry) (sources : List Source)
    (commands : List Command) :
    let s := (create foreign sources).after commands
    let seen := (create foreign sources).run commands
    let journal := seen.flatMap (·.events)
    let fs := failures sources s.history
    journal.filter (!·.isComplaint) = events s.history.reverse ∧
    journal.filter Event.isFailure = fs.reverse.filterMap Failure.event? ∧
    journal.countP Event.isLoopWarning = fs.countP (fun f => f.1 = .loop) ∧
    journal.countP Event.isReportError = fs.countP (fun f => f.1 = .report) ∧
    journal.countP Event.isReportError = seen.countP (fun o => o.answer.isFailedReport) ∧
    (∀ o ∈ seen, o.ToldOnce) ∧
    (∀ e ∈ journal, e.isFailure = true → ∃ err : CensusError,
      (e = .loopCensusFailed err ∨ e = .requestedCensusFailed err) ∧
      e.fields = [("error", err.message), ("code", "\"" ++ err.code ++ "\"")] ∧
      (err.code = "fetch_timeout" ↔ ∃ after, err.cause = .timeout after)) ∧
    (∀ e ∈ journal, e.isAlarm = true → e.isFailure = true ∨
      foreign.broken = true ∧ e = .encodingFailed foreign.complaint) ∧
    (∀ c, Requested (timeoutOf sources c) (trace c none s.history)) ∧
    ∀ (c k : ℕ) (x : Collector) (l : Loop), s.collectors[c]? = some x → x.loops[k]? = some l →
      Course x.interval x.timeout l.phase (trace c (some k) s.history) ∧
      (x.interval.nanos ≠ 0 →
        let own := events (s.history.reverse.filter fun r => r.collector = c ∧ r.loop = some k)
        (l.isLive = false → l.cancelled = true) ∧
        own.filter Event.isStart =
          (if l.hasRun then [.loopStarted x.interval.seconds] else []) ∧
        own.filter Event.isStop = (if l.isLive then [] else [.loopStopped])) := by
  intro s seen journal fs
  have htells : journal.filter (!·.isComplaint) = events s.history.reverse :=
    journal_without_complaints foreign sources commands
  have hfailures : journal.filter Event.isFailure = fs.reverse.filterMap Failure.event? := by
    rw [journal_of_run foreign sources commands fun e => Event.isFailure_of_isComplaint,
      ← (after_allCoherent foreign sources commands).alarms]
    exact List.filter_congr fun e he => (isAlarm_of_mem_events he).1.symm
  have htold : ∀ o ∈ seen, o.ToldOnce :=
    run_forall (observe_toldOnce foreign sources) commands
  refine ⟨htells, hfailures, ?_, ?_, countP_errors htold, htold, ?_, ?_,
    fun c => after_requested foreign sources commands c, ?_⟩
  · refine countP_failures hfailures (fun e he => by simp [Event.isFailure, he]) ?_
    rintro ⟨driver, e⟩
    cases driver <;> simp [Failure.event?, Event.isLoopWarning]
  · refine countP_failures hfailures (fun e he => by simp [Event.isFailure, he]) ?_
    rintro ⟨driver, e⟩
    cases driver <;> simp [Failure.event?, Event.isReportError]
  · intro e he hfailure
    have hmem : e ∈ journal.filter Event.isFailure := List.mem_filter.mpr ⟨he, hfailure⟩
    rw [hfailures] at hmem
    obtain ⟨f, -, hevent⟩ := List.mem_filterMap.mp hmem
    exact ⟨f.2, alarm_fields hevent⟩
  · intro e he halarm
    cases hcomplaint : e.isComplaint with
    | true =>
        obtain ⟨o, ho, heo⟩ := List.mem_flatMap.mp he
        exact .inr (complaint_of_run foreign sources commands o ho e heo hcomplaint)
    | false =>
        have hmem : e ∈ journal.filter (!·.isComplaint) :=
          List.mem_filter.mpr ⟨he, by simp [hcomplaint]⟩
        rw [htells] at hmem
        exact .inl ((isAlarm_of_mem_events hmem).1.symm.trans halarm)
  · intro c k x l hx hl
    exact ⟨after_course foreign sources commands hx hl,
      loop_journal foreign sources commands hx hl⟩

/-- Two passes of a loop fail, a direct call and a report fail, and a last pass is given up. All the
while somebody reads a registry that cannot be printed. -/
theorem four_failures_three_told :
    let failing (text : String) : Fetch := ⟨some (.error (.internal text)), 0, false⟩
    let stalling : Fetch := ⟨none, 0, false⟩
    let script := [failing "one", stalling, failing "two", failing "three", stalling]
    let sources : List Source := [⟨.ofMillis 100, .ofMillis 50, script⟩]
    let foreign : Gauge.Registry := { broken := true, complaint := "no name" }
    let commands : List Command :=
      [.start 0 false, .gather 0, .advance 160, .get 0, .request 0 ⟨"/metrics", "HEAD"⟩, .collect 0,
        .advance 50, .cancel 0, .join 0]
    let s := (create foreign sources).after commands
    let journal := ((create foreign sources).run commands).flatMap (·.events)
    failures sources s.history =
      [(.report, ⟨.internal "three"⟩), (.call, ⟨.internal "two"⟩),
        (.loop, ⟨.timeout (.ofMillis 50)⟩), (.loop, ⟨.internal "one"⟩)] ∧
    journal.filter Event.isFailure =
      [.loopCensusFailed ⟨.internal "one"⟩, .loopCensusFailed ⟨.timeout (.ofMillis 50)⟩,
        .requestedCensusFailed ⟨.internal "three"⟩] ∧
    journal.filter Event.isComplaint = [.encodingFailed "no name", .encodingFailed "no name"] ∧
    ∃ x l, s.collectors[0]? = some x ∧ x.loops[0]? = some l ∧ x.interval.nanos ≠ 0 ∧
      l.isLive = false ∧ l.cancelled = true := by
  intro failing stalling script sources foreign commands s journal
  have hfailures : failures sources s.history =
      [(.report, ⟨.internal "three"⟩), (.call, ⟨.internal "two"⟩),
        (.loop, ⟨.timeout (.ofMillis 50)⟩), (.loop, ⟨.internal "one"⟩)] := by
    decide +kernel
  obtain ⟨-, htold, -, -, -, -, -, -, -, hloops⟩ := failures_are_told_once foreign sources commands
  have hloop : s.collectors[0]?.map (fun x =>
      (x.interval.nanos, (x.loops[0]?).map Loop.isLive)) = some (100000000, some false) := by
    decide +kernel
  obtain ⟨x, hx, hfacts⟩ := Option.map_eq_some_iff.mp hloop
  obtain ⟨hinterval, hended⟩ := Prod.mk.inj hfacts
  obtain ⟨l, hl, hlive⟩ := Option.map_eq_some_iff.mp hended
  have hz : x.interval.nanos ≠ 0 := by omega
  refine ⟨hfailures, ?_, by decide +kernel, x, l, hx, hl, hz, hlive,
    ((hloops 0 0 x l hx hl).2 hz).1 hlive⟩
  change journal.filter Event.isFailure =
    (failures sources s.history).reverse.filterMap Failure.event? at htold
  rw [htold, hfailures]
  rfl

end Service

end AccountCensus
