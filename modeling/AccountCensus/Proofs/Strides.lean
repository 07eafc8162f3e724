import AccountCensus.Proofs.Settling
import Mathlib.Data.List.Induction

/-!
# Commands in strides

`perform_strides` says that every command is a list of strides, and `after_strides` says so of
every list of commands. The states that a run of commands goes through are those of `after`
(`run_snoc`). Where there are collectors, the registry of a run is the foreign one with the login
gauges (`Exports`).
-/

namespace AccountCensus.Service

open Relation

/-- An act, or settling. -/
inductive Stride (s : Service) : Service → Prop
  | act {s' : Service} : Act s s' → Stride s s'
  | settle (deadline : ℕ) : Stride s (s.settle deadline)

theorem Stride.steps {s s' : Service} (h : Stride s s') : ReflTransGen Step s s' := by
  cases h with
  | act h => exact .single (.act h)
  | settle deadline => exact s.settle_steps deadline

/-- What every step keeps, every list of steps keeps. -/
theorem steps_induction {P : Service → Prop} (hstep : ∀ {s s'}, Step s s' → P s → P s')
    {s s' : Service} (h : ReflTransGen Step s s') (hs : P s) : P s' := by
  induction h with
  | refl => exact hs
  | tail _ h ih => exact hstep h ih

theorem steps_of_strides {s s' : Service} (h : ReflTransGen Stride s s') :
    ReflTransGen Step s s' := by
  induction h with
  | refl => exact .refl
  | tail _ h ih => exact ih.trans h.steps

theorem orderly_of_steps {s s' : Service} (h : ReflTransGen Step s s') (hs : s.Orderly) :
    s'.Orderly :=
  steps_induction (fun h hs => h.orderly hs) h hs

theorem time_le_of_steps {s s' : Service} (h : ReflTransGen Step s s') : s.time ≤ s'.time := by
  induction h with
  | refl => exact le_rfl
  | tail _ h ih => exact ih.trans h.notes.1

/-! ## The history -/

/-- **A history only grows**, and the gauges follow what is added. -/
theorem history_of_steps {s s' : Service} (h : ReflTransGen Step s s') :
    ∃ new : List Record, s'.history = new ++ s.history ∧
      s'.metrics = new.foldr (fun r m => r.happening.publish m) s.metrics := by
  induction h with
  | refl => exact ⟨[], rfl, rfl⟩
  | @tail s' s'' _ hstep ih =>
      obtain ⟨new, hnew, hm⟩ := ih
      obtain ⟨-, c, loop, hs, hhistory, hmetrics⟩ := hstep.notes
      refine ⟨(hs.map (⟨s''.time, c, loop, ·⟩)).reverse ++ new, ?_, ?_⟩
      · rw [hhistory, hnew, List.append_assoc]
      · rw [hmetrics, List.foldr_append, List.foldr_reverse, List.foldl_map, hm]

/-- The gauges that were registered stay so. -/
theorem ready_of_steps {s s' : Service} (h : ReflTransGen Step s s') :
    s'.metrics.ready = s.metrics.ready := by
  obtain ⟨new, -, hmetrics⟩ := history_of_steps h
  rw [hmetrics]
  clear hmetrics
  induction new with
  | nil => rfl
  | cons r new ih => rw [List.foldr_cons, publish_ready, ih]

/-- Nothing is noted before what was noted earlier. -/
def Chronological (s : Service) : Prop :=
  s.history.Pairwise (fun r r' => r'.time ≤ r.time) ∧ ∀ r ∈ s.history, r.time ≤ s.time

theorem Step.chronological {s s' : Service} (h : Step s s') (hs : s.Chronological) :
    s'.Chronological := by
  obtain ⟨htime, c, loop, happenings, hhistory, -⟩ := h.notes
  have hnew : ∀ r ∈ (happenings.map fun h => (⟨s'.time, c, loop, h⟩ : Record)).reverse,
      r.time = s'.time := by
    intro r hr
    obtain ⟨h, -, rfl⟩ := List.mem_map.mp (List.mem_reverse.mp hr)
    rfl
  have hold : ∀ r ∈ s.history, r.time ≤ s'.time := fun r hr => (hs.2 r hr).trans htime
  constructor
  · rw [hhistory, List.pairwise_append]
    refine ⟨List.pairwise_of_forall_mem_list ?_, hs.1, ?_⟩
    · intro r hr r' hr'
      rw [hnew r hr, hnew r' hr']
    · intro r hr r' hr'
      rw [hnew r hr]
      exact hold r' hr'
  · intro r hr
    rw [hhistory] at hr
    rcases List.mem_append.mp hr with hr | hr
    · exact (hnew r hr).le
    · exact hold r hr

/-! ## Commands -/

variable {s : Service} (hs : s.Orderly)

theorem passUntil_time {deadline : ℕ} (h : s.time ≤ deadline) :
    (s.passUntil deadline).time = deadline :=
  max_eq_right h

include hs

theorem wait_after_settle {deadline : ℕ} (h : s.time ≤ deadline) :
    ReflTransGen Stride s { s.settle deadline with time := deadline } :=
  .tail (.single (.settle deadline)) (.act (.wait (settle_time_le h) (settle_quiet hs deadline)))

theorem passUntil_strides {deadline : ℕ} (h : s.time ≤ deadline) :
    ReflTransGen Stride s (s.passUntil deadline) := by
  have hpass : s.passUntil deadline = { s.settle deadline with time := deadline } := by
    rw [passUntil, max_eq_right h]
  rw [hpass]
  exact wait_after_settle hs h

theorem census_strides (c : ℕ) (driver : Census.Driver) :
    ReflTransGen Stride s (s.census c driver).1 := by
  unfold census
  cases hx : s.collectors[c]? with
  | none => exact .refl
  | some x =>
      have hbegin : Act s (s.beginCensus c x) := .begin hx
      have hcollector : (s.beginCensus c x).collectors[c]? = some x.beginFetch.1 := by
        simp [hx]
      have htrace : trace c none (s.beginCensus c x).history =
          (s.time, .fetchBegan x.beginFetch.2) :: trace c none s.history := by
        rw [beginCensus_history]
        simp [trace]
      dsimp only
      split
      · rename_i ha
        have hfinish := Act.finish driver hcollector htrace (by simp [ha])
        rw [Collector.beginFetch_timeout] at hfinish
        exact .tail (.single (.act hbegin)) (.act hfinish)
      · -- the loops that wake while the census waits note nothing in the foreground
        have hle := Nat.le_add_right (s.beginCensus c x).time
          (x.beginFetch.2.ending x.timeout).after
        have hpass := passUntil_strides (hbegin.orderly hs) hle
        obtain ⟨y, hy, hyt, -⟩ := settle_collector
          ((s.beginCensus c x).time + (x.beginFetch.2.ending x.timeout).after) hcollector
        rw [Collector.beginFetch_timeout] at hyt
        have hforeground := settle_foreground (s.beginCensus c x)
          ((s.beginCensus c x).time + (x.beginFetch.2.ending x.timeout).after) c
        have hfinish := Act.finish (s := (s.beginCensus c x).passUntil _) driver hy
          (hforeground.trans htrace) (by rw [passUntil_time hle, beginCensus_time, hyt])
        rw [hyt] at hfinish
        exact (ReflTransGen.single (.act hbegin)).trans (hpass.tail (.act hfinish))

theorem join_strides (c : ℕ) : ReflTransGen Stride s (s.join c).1 := by
  unfold join
  split
  · exact .refl
  · split
    · exact .single (.act (.forget c))
    · dsimp only
      split
      · exact .tail (.single (.settle _)) (.act (.forget c))
      · exact wait_after_settle hs (Nat.le_succ _)

theorem request_strides (c : ℕ) (r : Http.Request) :
    ReflTransGen Stride s (s.request c r).1 := by
  unfold request
  split
  · exact .refl
  · exact .refl
  · exact .refl
  · exact census_strides hs c .report

/-- **A command is a list of strides.** -/
theorem perform_strides (command : Command) : ReflTransGen Stride s (s.perform command).1 := by
  have hhas : ∀ c, s.has c = true → s.metrics.ready = true ∧
      ∃ x, s.collectors[c]? = some x := by
    intro c h
    obtain ⟨hready, hlt⟩ := Bool.and_eq_true_iff.mp h
    exact ⟨hready, _, List.getElem?_eq_getElem (of_decide_eq_true hlt)⟩
  unfold perform
  cases command with
  | start c fresh =>
      dsimp only [Command.needs]
      split
      · rename_i h
        obtain ⟨hready, x, hx⟩ := hhas c h
        exact .single (.act (.start fresh hx hready))
      · exact .refl
  | advance millis => exact passUntil_strides hs (Nat.le_add_right ..)
  | cancel c =>
      cases hx : s.collectors[c]? with
      | some x => exact .single (.act (.cancel hx))
      | none =>
          have hsame : s.rouse c Collector.cancel = s :=
            if_neg (not_lt.mpr (List.getElem?_eq_none_iff.mp hx))
          simp only [Command.needs, carryOut, hsame]
          exact .refl
  | join c =>
      dsimp only [Command.needs]
      split
      · exact join_strides hs c
      · exact .refl
  | get c =>
      dsimp only [Command.needs]
      split
      · exact census_strides hs c .call
      · exact .refl
  | collect c =>
      dsimp only [Command.needs]
      split
      · exact census_strides hs c .report
      · exact .refl
  | gather c =>
      dsimp only [Command.needs]
      split
      · exact .refl
      · exact .refl
  | request c r =>
      dsimp only [Command.needs]
      split
      · exact request_strides hs c r
      · exact .refl

theorem perform_orderly (command : Command) : (s.perform command).1.Orderly :=
  orderly_of_steps (steps_of_strides (perform_strides hs command)) hs

omit hs

/-! ## Runs -/

/-- The service after some commands. -/
def after (s : Service) (commands : List Command) : Service :=
  commands.foldl (fun s command => (s.perform command).1) s

theorem after_append (s : Service) (commands commands' : List Command) :
    s.after (commands ++ commands') = (s.after commands).after commands' :=
  List.foldl_append

theorem after_snoc (s : Service) (commands : List Command) (command : Command) :
    s.after (commands ++ [command]) = ((s.after commands).perform command).1 :=
  s.after_append commands [command]

/-- A run reports on each command what is seen of the service after it. -/
theorem run_snoc (s : Service) (commands : List Command) (command : Command) :
    s.run (commands ++ [command]) = s.run commands ++
      [(s.after commands).observe (s.after (commands ++ [command])) command
        ((s.after commands).perform command).2] := by
  induction commands generalizing s with
  | nil => rfl
  | cons first commands ih =>
      show _ :: (s.perform first).1.run (commands ++ [command]) = _
      rw [ih]
      rfl

include hs

theorem after_strides (commands : List Command) :
    ReflTransGen Stride s (s.after commands) := by
  induction commands using List.reverseRecOn with
  | nil => exact .refl
  | append_singleton commands command ih =>
      rw [after_snoc]
      exact ih.trans (perform_strides (orderly_of_steps (steps_of_strides ih) hs) command)

theorem after_steps (commands : List Command) : ReflTransGen Step s (s.after commands) :=
  steps_of_strides (after_strides hs commands)

theorem after_orderly (commands : List Command) : (s.after commands).Orderly :=
  orderly_of_steps (after_steps hs commands) hs

omit hs

theorem create_orderly (foreign : Gauge.Registry) (sources : List Source) :
    (create foreign sources).Orderly := by
  constructor
  · intro c hc
    simpa [create] using hc
  · intro c x hx
    obtain ⟨source, -, rfl⟩ := List.mem_map.mp (List.mem_of_getElem? hx)
    exact ⟨by simp, by simp⟩
  · intro c x hx hloops
    obtain ⟨source, -, rfl⟩ := List.mem_map.mp (List.mem_of_getElem? hx)
    exact absurd rfl hloops
  · intro r hr
    cases hr

theorem create_chronological (foreign : Gauge.Registry) (sources : List Source) :
    (create foreign sources).Chronological :=
  ⟨.nil, fun r hr => by cases hr⟩

/-- Where collectors were created the three names were free, and the gauges show zeros. -/
theorem create_registry {foreign : Gauge.Registry} {sources : List Source}
    (hsources : sources ≠ [])
    (hcreated : ∀ o ∈ (createAll { registry := foreign } sources).2, o = .ok ()) :
    foreign.Free Gauge.loginGauges ∧
      (create foreign sources).metrics.registry = foreign.withLogin {} := by
  obtain ⟨n, hn⟩ := Nat.exists_eq_succ_of_ne_zero (mt List.length_eq_zero_iff.mp hsources)
  have hall : createAll { registry := foreign } sources =
      (Gauge.Metrics.settled foreign,
        List.replicate (n + 1) (Gauge.Metrics.verdict foreign)) := by
    rw [createAll, hn, Gauge.Metrics.requests_succ, Gauge.Metrics.request_first rfl]
  have hok : Gauge.Metrics.verdict foreign = .ok () := by
    rw [hall] at hcreated
    exact hcreated _ (by simp)
  have hfree : foreign.Free Gauge.loginGauges := by
    by_contra htaken
    rw [Gauge.Metrics.verdict, if_neg htaken] at hok
    cases hok
  refine ⟨hfree, ?_⟩
  rw [create, hall, Gauge.Metrics.settled, if_pos hfree]

/-! ## The registry of a run -/

/-- The login gauges are in the registry, and all else is foreign. -/
def Exports (foreign : Gauge.Registry) (m : Gauge.Metrics) : Prop :=
  ∃ t, m.registry = foreign.withLogin t

section Exports

variable {foreign : Gauge.Registry} {m : Gauge.Metrics}

theorem Exports.publish (hfree : foreign.Free Gauge.loginGauges) (h : Exports foreign m)
    (happening : Happening) : Exports foreign (happening.publish m) := by
  obtain ⟨t, ht⟩ := h
  cases happening with
  | censusEnded driver fetched =>
      cases fetched with
      | ok accounts => exact ⟨tally accounts, Gauge.Metrics.publish_withLogin hfree ht _⟩
      | error cause => exact ⟨t, ht⟩
  | _ => exact ⟨t, ht⟩

theorem Exports.steps {s s' : Service} (hfree : foreign.Free Gauge.loginGauges)
    (h : Exports foreign s.metrics) (hsteps : ReflTransGen Step s s') :
    Exports foreign s'.metrics := by
  obtain ⟨new, -, hmetrics⟩ := history_of_steps hsteps
  rw [hmetrics]
  clear hmetrics
  induction new with
  | nil => exact h
  | cons r new ih => exact ih.publish hfree r.happening

/-- Where a collector was created the login gauges are exported. -/
theorem create_exports {sources : List Source}
    (hready : (create foreign sources).metrics.ready = true) :
    foreign.Free Gauge.loginGauges ∧ Exports foreign (create foreign sources).metrics := by
  have hmetrics : (create foreign sources).metrics =
      (({ registry := foreign } : Gauge.Metrics).requests sources.length).1 := rfl
  rw [hmetrics] at hready ⊢
  cases hn : sources.length with
  | zero =>
      rw [hn] at hready
      cases hready
  | succ n =>
      rw [hn, Gauge.Metrics.requests_succ, Gauge.Metrics.request_first rfl] at hready
      rw [Gauge.Metrics.requests_succ, Gauge.Metrics.request_first rfl]
      by_cases hfree : foreign.Free Gauge.loginGauges
      · refine ⟨hfree, {}, ?_⟩
        rw [Gauge.Metrics.settled, if_pos hfree]
      · rw [Gauge.Metrics.settled, if_neg hfree] at hready
        cases hready

end Exports

theorem has_ready {s : Service} {c : ℕ} (h : s.has c = true) : s.metrics.ready = true :=
  (Bool.and_eq_true_iff.mp h).1

/-- **The encoder complains of a foreign collector or of nothing**, whatever has happened. -/
theorem complaints_eq (foreign : Gauge.Registry) (sources : List Source) (commands : List Command)
    (command : Command) :
    let s := (create foreign sources).after commands
    s.complaints command = if command.isReading && command.needs.any s.has then
      Event.ofExposition foreign else [] := by
  intro s
  unfold complaints
  cases command.needs with
  | none => simp
  | some c =>
      cases hhas : s.has c with
      | false => simp [hhas]
      | true =>
          have hsteps := after_steps (create_orderly foreign sources) commands
          obtain ⟨hfree, hexports⟩ := @create_exports foreign sources
            ((ready_of_steps hsteps).symm.trans (has_ready hhas))
          obtain ⟨t, ht⟩ := hexports.steps hfree hsteps
          rw [ht]
          rfl

end AccountCensus.Service
