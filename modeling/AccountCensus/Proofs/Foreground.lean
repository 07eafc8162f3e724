import AccountCensus.Proofs.Course

/-!
# Censuses in the foreground

`perform_effect` tells commands apart by what they do to the state. A census in the foreground is a
whole pass (`census_foreground`), the other commands note nothing in the foreground, and loops
neither. So the foreground of every collector consists of whole passes, and with the course of the
loops every trace of a history is coherent (`after_coherent`).
-/

namespace AccountCensus.Service

open Relation

/-! ## One census -/

/-- The records of what happened in the foreground of collector `c`. -/
def inForeground (c : ℕ) (tr : List (ℕ × Happening)) : List Record :=
  tr.map fun e => ⟨e.1, c, none, e.2⟩

theorem trace_inForeground (c d : ℕ) (tr : List (ℕ × Happening)) :
    trace c none (inForeground d tr) = if d = c then tr else [] := by
  rw [trace, inForeground, List.filterMap_map]
  by_cases hd : d = c
  · rw [if_pos hd]
    simp [hd]
  · rw [if_neg hd, List.filterMap_eq_nil_iff]
    intro e _
    exact if_neg fun h => hd h.1

/-- The service when the fetch of a census in the foreground ends. -/
def awaited (s : Service) (c : ℕ) (x : Collector) : Service :=
  let ending := x.beginFetch.2.ending x.timeout
  let s := s.beginCensus c x
  if ending.after = 0 then s else s.passUntil (s.time + ending.after)

section Census

variable {s : Service} {c : ℕ} {x : Collector}

theorem census_eq (hx : s.collectors[c]? = some x) (driver : Census.Driver) :
    s.census c driver =
      ((s.awaited c x).noteAll c none ((x.beginFetch.2.ending x.timeout).happenings driver),
        (x.beginFetch.2.ending x.timeout).fetched) := by
  simp only [census, hx, awaited]

theorem awaited_time (s : Service) (c : ℕ) (x : Collector) :
    (s.awaited c x).time = s.time + (x.beginFetch.2.ending x.timeout).after := by
  unfold awaited
  dsimp only
  split
  · rename_i h
    rw [beginCensus_time, h, Nat.add_zero]
  · rw [passUntil_time (Nat.le_add_right ..), beginCensus_time]

/-- The beginning of the fetch is all that is noted in the foreground until it ends. -/
theorem awaited_foreground (s : Service) (c : ℕ) (x : Collector) :
    foreground (s.awaited c x).history =
      ⟨s.time, c, none, .fetchBegan x.beginFetch.2⟩ :: foreground s.history := by
  have hbegan : foreground (s.beginCensus c x).history =
      ⟨s.time, c, none, .fetchBegan x.beginFetch.2⟩ :: foreground s.history := by
    rw [beginCensus_history]
    rfl
  unfold awaited
  dsimp only
  split
  · exact hbegan
  · exact (foreground_settle _ _).trans hbegan

/-- **A census in the foreground is a whole pass.** -/
theorem census_foreground (hx : s.collectors[c]? = some x) (driver : Census.Driver) :
    foreground (s.census c driver).1.history =
      inForeground c (wholePass x.timeout driver s.time x.beginFetch.2) ++
        foreground s.history := by
  rw [census_eq hx, noteAll_history, awaited_time, foreground, List.filter_append]
  show _ ++ foreground (s.awaited c x).history = _
  rw [awaited_foreground]
  rfl

end Census

/-! ## Commands -/

/-- The census in the foreground that a command asks for: of which collector, and who drives it. -/
def Command.census? : Command → Option (ℕ × Census.Driver)
  | .get c => some (c, .call)
  | .collect c => some (c, .report)
  | .request c r =>
    match r.route with
    | .serve .report => some (c, .report)
    | _ => none
  | _ => none

theorem Command.census?_driver {command : Command} {c : ℕ} {driver : Census.Driver}
    (h : command.census? = some (c, driver)) : driver ≠ .loop := by
  rintro rfl
  cases command with
  | request d r =>
      simp only [census?] at h
      split at h <;> simp at h
  | _ => simp [census?] at h

/-- How such a command tells what its census fetched. -/
def Command.tell (command : Command) (fetched : Fetched) : Answer :=
  match command with
  | .get _ => .tally (Census.result fetched)
  | .request _ r => .response ((Http.reportResponse (Census.result fetched)).forMethod r.method)
  | _ => .report ((Census.result fetched).map Report.ofTally)

/-- A report was asked for, and the answer is that there is none. -/
def Answer.isFailedReport : Answer → Bool
  | .report (.error _) => true
  | .response r => r.status = 500
  | _ => false

/-- What a command makes of a service, and its answer. -/
inductive Effect (s : Service) : Command → Service × Answer → Prop
  | none {command : Command} {a : Answer} : a.isFailedReport = false → Effect s command (s, a)
  | start {c : ℕ} (fresh : Bool) : s.has c = true →
      Effect s (.start c fresh) (s.rouse c (·.start fresh), .nothing)
  | cancel (c : ℕ) : Effect s (.cancel c) (s.rouse c Collector.cancel, .nothing)
  | advance (millis : ℕ) :
      Effect s (.advance millis) (s.passUntil (s.time + millis), .nothing)
  | join (c : ℕ) : Effect s (.join c) (s.join c)
  | census {command : Command} {c : ℕ} {driver : Census.Driver} {x : Collector} :
      command.census? = some (c, driver) → s.collectors[c]? = some x →
      Effect s command ((s.census c driver).1, command.tell (s.census c driver).2)

section Perform

variable {s : Service} {command : Command} {c : ℕ}

theorem perform_of_has (hneeds : command.needs = some c) (h : s.has c = true) :
    s.perform command = s.carryOut command := by
  simp only [perform, hneeds, h, if_true]

theorem perform_of_not_has (hneeds : command.needs = some c) (h : ¬ s.has c = true) :
    s.perform command = (s, .noCollector) := by
  simp only [perform, hneeds, if_neg h]

theorem exists_of_has (h : s.has c = true) : ∃ x, s.collectors[c]? = some x :=
  ⟨_, List.getElem?_eq_getElem (of_decide_eq_true (Bool.and_eq_true_iff.mp h).2)⟩

/-- **A command that asks for a census** gets what the census fetched, in its own words. -/
theorem perform_census {driver : Census.Driver} (hcensus : command.census? = some (c, driver))
    (h : s.has c = true) :
    s.perform command = ((s.census c driver).1, command.tell (s.census c driver).2) := by
  cases command with
  | get d =>
      obtain ⟨rfl, rfl⟩ := Prod.mk.inj (Option.some.inj hcensus)
      exact perform_of_has rfl h
  | collect d =>
      obtain ⟨rfl, rfl⟩ := Prod.mk.inj (Option.some.inj hcensus)
      exact perform_of_has rfl h
  | request d r =>
      simp only [Command.census?] at hcensus
      split at hcensus
      · rename_i hroute
        obtain ⟨rfl, rfl⟩ := Prod.mk.inj (Option.some.inj hcensus)
        rw [perform_of_has rfl h]
        simp only [carryOut, request, hroute, Command.tell]
      · cases hcensus
  | _ => cases hcensus

/-- **What commands do.** -/
theorem perform_effect (s : Service) (command : Command) :
    Effect s command (s.perform command) := by
  by_cases hmissing : ∃ c, command.needs = some c ∧ ¬ s.has c = true
  · obtain ⟨c, hneeds, h⟩ := hmissing
    rw [perform_of_not_has hneeds h]
    exact .none rfl
  · have hhas : ∀ c, command.needs = some c → s.has c = true :=
      fun c hneeds => not_not.mp fun h => hmissing ⟨c, hneeds, h⟩
    have hcensus : ∀ c driver, command.needs = some c → command.census? = some (c, driver) →
        Effect s command (s.perform command) := by
      intro c driver hneeds hcensus
      obtain ⟨x, hx⟩ := exists_of_has (hhas c hneeds)
      rw [perform_census hcensus (hhas c hneeds)]
      exact .census hcensus hx
    cases command with
    | advance millis => exact .advance millis
    | cancel c => exact .cancel c
    | start c fresh =>
        rw [perform_of_has rfl (hhas c rfl)]
        exact .start fresh (hhas c rfl)
    | join c =>
        rw [perform_of_has rfl (hhas c rfl)]
        exact .join c
    | gather c =>
        rw [perform_of_has rfl (hhas c rfl)]
        exact .none rfl
    | get c => exact hcensus c .call rfl rfl
    | collect c => exact hcensus c .report rfl rfl
    | request c r =>
        cases hroute : r.route with
        | serve resource =>
            cases resource with
            | report => exact hcensus c .report rfl (by simp only [Command.census?, hroute])
            | exposition =>
                rw [perform_of_has rfl (hhas c rfl)]
                simp only [carryOut, request, hroute]
                refine .none ?_
                unfold Http.Response.forMethod
                split <;> rfl
        | wrongMethod =>
            rw [perform_of_has rfl (hhas c rfl)]
            simp only [carryOut, request, hroute]
            exact .none rfl
        | unknownPath =>
            rw [perform_of_has rfl (hhas c rfl)]
            simp only [carryOut, request, hroute]
            exact .none rfl

end Perform

theorem join_foreground (s : Service) (c : ℕ) :
    foreground (s.join c).1.history = foreground s.history := by
  unfold join
  split
  · rfl
  · split
    · rfl
    · dsimp only
      split
      · exact foreground_settle ..
      · exact foreground_settle ..

theorem join_isFailedReport (s : Service) (c : ℕ) : (s.join c).2.isFailedReport = false := by
  have hend : ∀ {u : Service} {a : Answer}, u.endOf c = some a → a.isFailedReport = false := by
    intro u a ha
    obtain ⟨l, -, hl⟩ := Option.bind_eq_some_iff.mp ha
    unfold Loop.end? at hl
    split at hl
    · obtain rfl := Option.some.inj hl
      rfl
    · obtain rfl := Option.some.inj hl
      rfl
    · cases hl
  unfold join
  split
  · rfl
  · split
    · exact hend (by assumption)
    · dsimp only
      split
      · exact hend (by assumption)
      · rfl

/-- **A command adds at most one whole pass to the foreground**, and its answer tells how that one
ended. Without one it tells of no failure. -/
theorem perform_foreground (s : Service) (command : Command) :
    (foreground (s.perform command).1.history = foreground s.history ∧
      (s.perform command).2.isFailedReport = false) ∨
    ∃ c driver x, command.census? = some (c, driver) ∧ s.collectors[c]? = some x ∧
      foreground (s.perform command).1.history =
        inForeground c (wholePass x.timeout driver s.time x.beginFetch.2) ++
          foreground s.history ∧
      (s.perform command).2 = command.tell (x.beginFetch.2.ending x.timeout).fetched := by
  have heffect := s.perform_effect command
  generalize s.perform command = result at heffect ⊢
  cases heffect with
  | none ha => exact .inl ⟨rfl, ha⟩
  | start fresh h => exact .inl ⟨congrArg foreground (rouse_history ..), rfl⟩
  | cancel c => exact .inl ⟨congrArg foreground (rouse_history ..), rfl⟩
  | advance millis => exact .inl ⟨foreground_settle .., rfl⟩
  | join c => exact .inl ⟨join_foreground s c, join_isFailedReport s c⟩
  | census hcensus hx =>
      refine .inr ⟨_, _, _, hcensus, hx, census_foreground hx _, ?_⟩
      rw [census_eq hx]

/-! ## Settings -/

/-- What no command changes of a collector. -/
def Collector.settings (x : Collector) : Duration × Duration := (x.interval, x.timeout)

theorem map_settings_modify {xs : List Collector} {c : ℕ} {f : Collector → Collector}
    (hf : ∀ x, xs[c]? = some x → (f x).settings = x.settings) :
    (xs.modify c f).map Collector.settings = xs.map Collector.settings := by
  apply List.ext_getElem?
  intro d
  rw [List.getElem?_map, List.getElem?_modify, List.getElem?_map]
  cases hd : xs[d]? with
  | none => rfl
  | some x =>
      by_cases hcd : c = d
      · subst hcd
        simp [hf x hd]
      · simp [hcd]

theorem Step.settings {s s' : Service} (h : Step s s') :
    s'.collectors.map Collector.settings = s.collectors.map Collector.settings := by
  cases h with
  | act h =>
      cases h with
      | start fresh hx hready =>
          rw [rouse_collectors]
          exact map_settings_modify fun x _ => rfl
      | cancel hx =>
          rw [rouse_collectors]
          exact map_settings_modify fun x _ => rfl
      | forget c => exact map_settings_modify (c := c) fun x _ => rfl
      | @begin c x hx =>
          rw [beginCensus_collectors]
          refine map_settings_modify fun y hy => ?_
          obtain rfl : x = y := Option.some.inj (hx.symm.trans hy)
          simp [Collector.settings]
      | finish driver hx htrace htime => rw [noteAll_collectors]
      | wait ht hquiet => rfl
  | @wake w hw =>
      obtain ⟨x, l, hs, phase, began, h⟩ := exists_woken hw
      rw [h.collectors]
      refine map_settings_modify fun y hy => ?_
      obtain rfl : x = y := Option.some.inj (h.collector.symm.trans hy)
      cases began <;> simp [Collector.settings]

/-- The interval and the time-out of a collector are those of its source. -/
theorem settings_of_steps {foreign : Gauge.Registry} {sources : List Source} {s : Service}
    (h : ReflTransGen Step (create foreign sources) s) {c : ℕ} {x : Collector}
    (hx : s.collectors[c]? = some x) :
    ∃ source, sources[c]? = some source ∧ x.interval = source.interval ∧
      x.timeout = source.timeout := by
  have hsame : s.collectors.map Collector.settings =
      sources.map fun y => (y.interval, y.timeout) := by
    refine steps_induction (P := fun s => s.collectors.map Collector.settings =
      sources.map fun y => (y.interval, y.timeout)) (fun h ih => h.settings.trans ih) h ?_
    simp [create, Collector.settings]
  have hc := congrArg (·[c]?) hsame
  simp only [List.getElem?_map, hx, Option.map_some] at hc
  obtain ⟨source, hsource, heq⟩ := Option.map_eq_some_iff.mp hc.symm
  obtain ⟨hinterval, htimeout⟩ := Prod.mk.inj heq
  exact ⟨source, hsource, hinterval.symm, htimeout.symm⟩

/-! ## Whole histories -/

/-- The time-out of a source. -/
def timeoutOf (sources : List Source) (c : ℕ) : Duration :=
  ((sources[c]?).map Source.timeout).getD default

theorem timeout_of_steps {foreign : Gauge.Registry} {sources : List Source} {s : Service}
    (h : ReflTransGen Step (create foreign sources) s) {c : ℕ} {x : Collector}
    (hx : s.collectors[c]? = some x) : x.timeout = timeoutOf sources c := by
  obtain ⟨source, hsource, -, htimeout⟩ := settings_of_steps h hx
  rw [timeoutOf, hsource, htimeout]
  rfl

section Runs

variable (foreign : Gauge.Registry) (sources : List Source) (commands : List Command)

theorem timeout_eq {c : ℕ} {x : Collector}
    (hx : ((create foreign sources).after commands).collectors[c]? = some x) :
    x.timeout = timeoutOf sources c :=
  timeout_of_steps (after_steps (create_orderly foreign sources) commands) hx

/-- **The foreground of a collector consists of whole passes.** -/
theorem after_requested (c : ℕ) : Requested (timeoutOf sources c)
    (trace c none ((create foreign sources).after commands).history) := by
  induction commands using List.reverseRecOn with
  | nil => exact .nil
  | append_singleton commands command ih =>
      rw [after_snoc, ← trace_foreground]
      rcases perform_foreground ((create foreign sources).after commands) command with
        ⟨hsame, -⟩ | ⟨d, driver, x, hcensus, hx, hpass, -⟩
      · rw [hsame, trace_foreground]
        exact ih
      · rw [hpass, trace_append, trace_foreground, trace_inForeground]
        by_cases hd : d = c
        · subst hd
          rw [if_pos rfl, timeout_eq foreign sources commands hx]
          exact .pass (Command.census?_driver hcensus) ih
        · rw [if_neg hd, List.nil_append]
          exact ih

/-- What has happened to a loop is its course. -/
theorem after_course {c k : ℕ} {x : Collector} {l : Loop}
    (hx : ((create foreign sources).after commands).collectors[c]? = some x)
    (hl : x.loops[k]? = some l) :
    Course x.interval x.timeout l.phase
      (trace c (some k) ((create foreign sources).after commands).history) :=
  course_of_life (life_of_steps (create_orderly foreign sources) (create_fresh foreign sources)
    (after_steps (create_orderly foreign sources) commands) (sees_of_loop hx hl))

/-- **Every trace of a history is coherent.** -/
theorem after_coherent (c : ℕ) (loop : Option ℕ) : Coherent (timeoutOf sources c) loop.isSome
    (trace c loop ((create foreign sources).after commands).history) := by
  cases loop with
  | none => exact (after_requested foreign sources commands c).coherent
  | some k =>
      by_cases hloop : ∃ x, ((create foreign sources).after commands).collectors[c]? = some x ∧
          k < x.loops.length
      · obtain ⟨x, hx, hk⟩ := hloop
        rw [← timeout_eq foreign sources commands hx]
        exact (after_course foreign sources commands hx (List.getElem?_eq_getElem hk)).coherent
      · have hs := after_orderly (create_orderly foreign sources) commands
        have hnone :
            trace c (some k) ((create foreign sources).after commands).history = [] := by
          rw [trace, List.filterMap_eq_nil_iff]
          intro r hr
          refine if_neg ?_
          rintro ⟨rfl, hk⟩
          exact hloop (hs.noted r hr k hk)
        rw [hnone]
        trivial

end Runs

end AccountCensus.Service
