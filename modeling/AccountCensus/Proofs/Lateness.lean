import AccountCensus.Proofs.Foreground

/-!
# Answers that come too late

A fetch that has timed out is given up, so that nothing depends on what it would have answered, or
whether it would have answered at all. `cutOff` takes such answers out of scripts. Two services
that are equal without them keep in step (`InStep`) under every command, and show the same to all
observers (`run_eq_of_inStep`).

How a fetch ends and whether it cancels the token is all that a collector asks of it, and the cut
leaves both alone (`Fetch.cutOff_ending`). The history keeps each fetch as it was begun, which no
observer sees; `bare` takes that out.
-/

namespace AccountCensus.Service

/-! ## Cutting off -/

/-- A fetch that would time out stalls instead. -/
def Fetch.cutOff (timeout : Duration) (f : Fetch) : Fetch :=
  if (f.ending timeout).answered then f else ⟨none, 0, f.cancels⟩

def Collector.cutOff (x : Collector) : Collector :=
  { x with script := x.script.map (Fetch.cutOff x.timeout) }

def Source.cutOff (x : Source) : Source :=
  { x with script := x.script.map (Fetch.cutOff x.timeout) }

/-- A fetch that begins is not told from others. -/
def Happening.bare : Happening → Happening
  | fetchBegan _ => fetchBegan .beyond
  | h => h

def Record.bare (r : Record) : Record := { r with happening := r.happening.bare }

/-- How a fetch ends: with its answer, if that comes in time, or else by the time-out. -/
theorem Fetch.ending_inTime_or_late (timeout : Duration) (f : Fetch) :
    (∃ a, f.answer = some a ∧ f.delay ≤ timeout.ceilMillis ∧
      f.ending timeout = ⟨f.delay, true, a⟩) ∨
    ((∀ a, f.answer = some a → timeout.ceilMillis < f.delay) ∧
      f.ending timeout = .timedOut timeout) := by
  unfold ending
  cases f.answer with
  | none => exact .inr ⟨by simp, rfl⟩
  | some a =>
      by_cases hle : f.delay ≤ timeout.ceilMillis
      · exact .inl ⟨a, rfl, hle, if_pos hle⟩
      · exact .inr ⟨fun _ _ => not_le.mp hle, if_neg hle⟩

@[simp] theorem Fetch.cutOff_cancels (timeout : Duration) (f : Fetch) :
    (f.cutOff timeout).cancels = f.cancels := by
  unfold cutOff
  split <;> rfl

/-- **A late answer does not change how a fetch ends.** -/
@[simp] theorem Fetch.cutOff_ending (timeout : Duration) (f : Fetch) :
    (f.cutOff timeout).ending timeout = f.ending timeout := by
  rcases f.ending_inTime_or_late timeout with ⟨a, -, -, hending⟩ | ⟨-, hending⟩
  · rw [cutOff, hending, if_pos rfl, hending]
  · rw [cutOff, hending]
    rfl

@[simp] theorem Fetch.cutOff_beyond (timeout : Duration) : beyond.cutOff timeout = beyond := by
  have hanswered : (beyond.ending timeout).answered = true := by
    simp [ending, beyond]
  rw [cutOff, if_pos hanswered]

@[simp] theorem Happening.bare_events (h : Happening) : h.bare.events = h.events := by
  cases h <;> rfl

@[simp] theorem Happening.bare_mark? (h : Happening) : h.bare.mark? = h.mark? := by
  cases h <;> rfl

@[simp] theorem Happening.bare_publish (m : Gauge.Metrics) (h : Happening) :
    h.bare.publish m = h.publish m := by
  cases h <;> rfl

theorem marks_bare (c : ℕ) (records : List Record) :
    marks c (records.map Record.bare) = marks c records := by
  unfold marks
  rw [List.filterMap_map]
  congr 1
  funext r
  show (if r.collector = c then r.happening.bare.mark?.map (r.time, ·) else none) = _
  rw [Happening.bare_mark?]

theorem events_bare (records : List Record) :
    events (records.map Record.bare) = events records := by
  unfold events
  rw [List.flatMap_map]
  congr 1
  funext r
  exact r.happening.bare_events

/-! ## Collectors -/

namespace Collector

variable (x : Collector)

theorem cutOff_loops : x.cutOff.loops = x.loops := rfl

theorem cutOff_cancel : x.cancel.cutOff = x.cutOff.cancel := rfl

theorem cutOff_beginFetch : x.beginFetch.1.cutOff = x.cutOff.beginFetch.1 ∧
    x.cutOff.beginFetch.2 = x.beginFetch.2.cutOff x.timeout := by
  have hfetch : x.cutOff.beginFetch.2 = x.beginFetch.2.cutOff x.timeout := by
    show (x.script.map (Fetch.cutOff x.timeout)).headD .beyond =
      (x.script.headD .beyond).cutOff x.timeout
    cases x.script with
    | nil => exact (Fetch.cutOff_beyond _).symm
    | cons f fs => rfl
  refine ⟨?_, hfetch⟩
  have hcancels : x.cutOff.beginFetch.2.cancels = x.beginFetch.2.cancels := by
    rw [hfetch, Fetch.cutOff_cancels]
  unfold beginFetch at hcancels ⊢
  dsimp only at hcancels ⊢
  rw [hcancels]
  split
  · rw [cutOff_cancel]
    simp [cutOff]
  · simp [cutOff]

/-- **A collector that wakes does the same without late answers.** -/
theorem cutOff_wake (k now : ℕ) : (x.wake k now).1.cutOff = (x.cutOff.wake k now).1 ∧
    (x.wake k now).2.map Happening.bare = (x.cutOff.wake k now).2.map Happening.bare := by
  have htick : ∀ due, (x.serveTick k due now).1.cutOff = (x.cutOff.serveTick k due now).1 ∧
      (x.serveTick k due now).2.map Happening.bare =
        (x.cutOff.serveTick k due now).2.map Happening.bare := by
    intro due
    obtain ⟨hbegin, hfetch⟩ := x.cutOff_beginFetch
    have hending : x.cutOff.beginFetch.2.ending x.cutOff.beginFetch.1.timeout =
        x.beginFetch.2.ending x.beginFetch.1.timeout := by
      rw [beginFetch_timeout, beginFetch_timeout, hfetch]
      exact Fetch.cutOff_ending _ _
    unfold serveTick
    dsimp only
    rw [hending, ← hbegin]
    split <;> exact ⟨rfl, rfl⟩
  unfold wake
  rw [cutOff_loops]
  cases hl : x.loops[k]? with
  | none => exact ⟨rfl, rfl⟩
  | some l =>
      cases hp : l.phase with
      | spawned =>
          by_cases hz : x.interval.nanos = 0
          · have hz' : x.cutOff.interval.nanos = 0 := hz
            simp only [hp, if_pos hz, if_pos hz']
            exact ⟨rfl, rfl⟩
          · have hz' : ¬ x.cutOff.interval.nanos = 0 := hz
            simp only [hp, if_neg hz, if_neg hz']
            exact ⟨rfl, rfl⟩
      | waiting due =>
          simp only [hp]
          split
          · exact ⟨rfl, rfl⟩
          · exact htick due
      | fetching due finish e =>
          simp only [hp]
          split <;> exact ⟨rfl, rfl⟩
      | stopped => simp only [hp, and_self]
      | panicked => simp only [hp, and_self]

end Collector

/-! ## Services -/

/-- Two services that differ at most in answers that come too late. -/
structure InStep (s s' : Service) : Prop where
  time : s.time = s'.time
  collectors : s.collectors.map Collector.cutOff = s'.collectors.map Collector.cutOff
  turns : s.turns = s'.turns
  metrics : s.metrics = s'.metrics
  history : s.history.map Record.bare = s'.history.map Record.bare

namespace InStep

variable {s s' : Service} (h : InStep s s')
include h

theorem length : s.collectors.length = s'.collectors.length := by
  simpa using congrArg List.length h.collectors

theorem getElem? (c : ℕ) :
    s.collectors[c]?.map Collector.cutOff = s'.collectors[c]?.map Collector.cutOff := by
  rw [← List.getElem?_map, h.collectors, List.getElem?_map]

/-- Collector `c` is in neither service, or the two differ at most in late answers. -/
theorem none_or_some (c : ℕ) : (s.collectors[c]? = none ∧ s'.collectors[c]? = none) ∨
    ∃ x y, s.collectors[c]? = some x ∧ s'.collectors[c]? = some y ∧ x.cutOff = y.cutOff := by
  have hc := h.getElem? c
  cases hx : s.collectors[c]? with
  | none =>
      rw [hx] at hc
      exact .inl ⟨rfl, Option.map_eq_none_iff.mp hc.symm⟩
  | some x =>
      rw [hx] at hc
      obtain ⟨y, hy, hxy⟩ := Option.map_eq_some_iff.mp hc.symm
      exact .inr ⟨x, y, rfl, hy, hxy.symm⟩

/-- What can be asked of a collector without its late answers. -/
theorem bind_eq {α : Type} {g : Collector → Option α} (hg : ∀ x, g x.cutOff = g x) (c : ℕ) :
    s.collectors[c]?.bind g = s'.collectors[c]?.bind g := by
  rcases h.none_or_some c with ⟨hx, hy⟩ | ⟨x, y, hx, hy, hxy⟩
  · rw [hx, hy]
  · rw [hx, hy, Option.bind_some, Option.bind_some, ← hg x, hxy, hg y]

theorem nextOf_eq (c : ℕ) : s.nextOf c = s'.nextOf c := by
  rw [nextOf, nextOf, ← h.time, h.bind_eq (fun _ => rfl)]

theorem next?_eq : s.next? = s'.next? := by
  have hamong : ∀ cs, s.nextAmong cs = s'.nextAmong cs := by
    intro cs
    induction cs with
    | nil => rfl
    | cons c cs ih => rw [nextAmong, nextAmong, h.nextOf_eq, ih]
  rw [next?, next?, h.turns, hamong]

theorem isQueued_eq (c : ℕ) : s.isQueued c = s'.isQueued c := by
  rw [isQueued, isQueued, ← h.time, h.bind_eq (fun _ => rfl)]

theorem endOf_eq (c : ℕ) : s.endOf c = s'.endOf c := by
  rw [endOf, endOf, h.bind_eq (fun _ => rfl)]

theorem has_eq (c : ℕ) : s.has c = s'.has c := by
  rw [has, has, h.metrics, h.length]

theorem rank_eq (deadline : ℕ) : s.rank deadline = s'.rank deadline := by
  have hcut : ∀ u : Service, u.rank deadline = (u.collectors.map Collector.cutOff).foldr
      (fun x n => x.rank (deadline * nanosPerMilli) + n) 0 := by
    intro u
    rw [List.foldr_map]
    rfl
  rw [hcut, hcut, h.collectors]

/-- A change of one collector that cutting off does not notice. -/
theorem modify {c : ℕ} {f f' : Collector → Collector}
    (hf : ∀ x y, s.collectors[c]? = some x → s'.collectors[c]? = some y → x.cutOff = y.cutOff →
      (f x).cutOff = (f' y).cutOff) :
    (s.collectors.modify c f).map Collector.cutOff =
      (s'.collectors.modify c f').map Collector.cutOff := by
  apply List.ext_getElem?
  intro d
  rw [List.getElem?_map, List.getElem?_map, List.getElem?_modify, List.getElem?_modify]
  rcases h.none_or_some d with ⟨hx, hy⟩ | ⟨x, y, hx, hy, hxy⟩
  · simp [hx, hy]
  · rw [hx, hy]
    by_cases hd : c = d
    · subst hd
      simpa using hf x y hx hy hxy
    · simpa [hd] using hxy

theorem postpone (c : ℕ) : InStep (s.postpone c) (s'.postpone c) :=
  ⟨h.time, h.collectors, congrArg (fun turns : List ℕ => turns.erase c ++ [c]) h.turns, h.metrics,
    h.history⟩

theorem rouse {c : ℕ} {f f' : Collector → Collector}
    (hf : ∀ x y, s.collectors[c]? = some x → s'.collectors[c]? = some y → x.cutOff = y.cutOff →
      (f x).cutOff = (f' y).cutOff) : InStep (s.rouse c f) (s'.rouse c f') := by
  have hchanged : InStep { s with collectors := s.collectors.modify c f }
      { s' with collectors := s'.collectors.modify c f' } :=
    ⟨h.time, h.modify hf, h.turns, h.metrics, h.history⟩
  unfold Service.rouse
  rw [h.length, h.isQueued_eq]
  dsimp only
  split
  · split
    · exact hchanged
    · exact hchanged.postpone c
  · exact h

theorem noteAll {hs hs' : List Happening} (hhs : hs.map Happening.bare = hs'.map Happening.bare)
    (c : ℕ) (loop : Option ℕ) : InStep (s.noteAll c loop hs) (s'.noteAll c loop hs') := by
  have hpublish : ∀ (hs : List Happening) (m : Gauge.Metrics),
      hs.foldl Happening.publish m = (hs.map Happening.bare).foldl Happening.publish m := by
    intro hs m
    rw [List.foldl_map]
    simp only [Happening.bare_publish]
  have hnotes : ∀ (hs : List Happening) (t : ℕ),
      ((hs.map (⟨t, c, loop, ·⟩)).reverse).map Record.bare =
        ((hs.map Happening.bare).map fun h => (⟨t, c, loop, h⟩ : Record)).reverse := by
    intro hs t
    rw [List.map_reverse, List.map_map, List.map_map]
    rfl
  rw [noteAll_eq, noteAll_eq]
  refine ⟨h.time, h.collectors, h.turns, ?_, ?_⟩
  · show hs.foldl Happening.publish s.metrics = hs'.foldl Happening.publish s'.metrics
    rw [hpublish, hhs, h.metrics, ← hpublish]
  · show List.map _ (_ ++ s.history) = List.map _ (_ ++ s'.history)
    rw [List.map_append, List.map_append, hnotes, hnotes, hhs, h.time, h.history]

/-- **A wake keeps services in step.** -/
theorem wake (w : Wake) : InStep (s.wake w) (s'.wake w) := by
  rcases h.none_or_some w.collector with ⟨hx, hy⟩ | ⟨x, y, hx, hy, hxy⟩
  · unfold Service.wake
    rw [hx, hy]
    exact h
  · have hwake : (x.wake w.loop w.time).1.cutOff = (y.wake w.loop w.time).1.cutOff := by
      rw [(x.cutOff_wake ..).1, hxy, ← (y.cutOff_wake ..).1]
    have hnotes : (x.wake w.loop w.time).2.map Happening.bare =
        (y.wake w.loop w.time).2.map Happening.bare := by
      rw [(x.cutOff_wake ..).2, hxy, ← (y.cutOff_wake ..).2]
    have hloops : (x.wake w.loop w.time).1.loops = (y.wake w.loop w.time).1.loops := by
      rw [← Collector.cutOff_loops, hwake, Collector.cutOff_loops]
    have hset : InStep
        { s with
          time := w.time
          collectors := s.collectors.set w.collector (x.wake w.loop w.time).1 }
        { s' with
          time := w.time
          collectors := s'.collectors.set w.collector (y.wake w.loop w.time).1 } :=
      ⟨rfl, by rw [List.map_set, List.map_set, h.collectors, hwake], h.turns, h.metrics, h.history⟩
    unfold Service.wake
    rw [hx, hy]
    dsimp only
    rw [hloops]
    refine InStep.noteAll ?_ hnotes _ _
    split
    · exact hset.postpone _
    · exact hset

theorem settle (deadline : ℕ) : InStep (s.settle deadline) (s'.settle deadline) := by
  have hserve : ∀ fuel {s s' : Service}, InStep s s' →
      InStep (s.serve deadline fuel) (s'.serve deadline fuel) := by
    intro fuel
    induction fuel with
    | zero => exact fun h => h
    | succ fuel ih =>
        intro s s' h
        rw [serve, serve, h.next?_eq]
        split
        · exact h
        · split
          · exact ih (h.wake _)
          · exact h
  rw [Service.settle, Service.settle, h.rank_eq]
  exact hserve _ h

/-- Setting the clock. -/
theorem setTime (t : ℕ) : InStep { s with time := t } { s' with time := t } :=
  ⟨rfl, h.collectors, h.turns, h.metrics, h.history⟩

theorem passUntil (deadline : ℕ) : InStep (s.passUntil deadline) (s'.passUntil deadline) := by
  rw [Service.passUntil, Service.passUntil, h.time]
  exact (h.settle deadline).setTime _

/-- **A census keeps services in step**, and fetches the same in both. -/
theorem census (c : ℕ) (driver : Census.Driver) :
    InStep (s.census c driver).1 (s'.census c driver).1 ∧
      (s.census c driver).2 = (s'.census c driver).2 := by
  rcases h.none_or_some c with ⟨hx, hy⟩ | ⟨x, y, hx, hy, hxy⟩
  · unfold Service.census
    rw [hx, hy]
    exact ⟨h, rfl⟩
  · have hbegin : x.beginFetch.1.cutOff = y.beginFetch.1.cutOff := by
      rw [x.cutOff_beginFetch.1, hxy, ← y.cutOff_beginFetch.1]
    have htimeout : x.timeout = y.timeout := congrArg (·.timeout) hxy
    have hcancels : x.beginFetch.2.cancels = y.beginFetch.2.cancels := by
      rw [← Fetch.cutOff_cancels, ← x.cutOff_beginFetch.2, hxy, y.cutOff_beginFetch.2,
        Fetch.cutOff_cancels]
    have hending : x.beginFetch.2.ending x.timeout = y.beginFetch.2.ending y.timeout := by
      rw [← Fetch.cutOff_ending, ← x.cutOff_beginFetch.2, hxy, htimeout, y.cutOff_beginFetch.2,
        Fetch.cutOff_ending]
    have hdrawn : InStep (s.draw c x) (s'.draw c y) := by
      unfold draw
      dsimp only
      rw [hcancels]
      split
      · exact h.rouse fun _ _ _ _ _ => hbegin
      · exact ⟨h.time, h.modify fun _ _ _ _ _ => hbegin, h.turns, h.metrics, h.history⟩
    have hbegan : InStep (s.beginCensus c x) (s'.beginCensus c y) := by
      show InStep ((s.draw c x).noteAll c none [.fetchBegan x.beginFetch.2])
        ((s'.draw c y).noteAll c none [.fetchBegan y.beginFetch.2])
      refine hdrawn.noteAll ?_ c none
      rfl
    have hawaited : InStep (s.awaited c x) (s'.awaited c y) := by
      unfold awaited
      dsimp only
      rw [hending, hbegan.time]
      split
      · exact hbegan
      · exact hbegan.passUntil _
    rw [census_eq hx, census_eq hy, hending]
    exact ⟨hawaited.noteAll rfl c none, rfl⟩

theorem forget (c : ℕ) : InStep (s.forget c) (s'.forget c) :=
  ⟨h.time, h.modify fun _ _ _ _ hxy => congrArg ({ · with joinable := none }) hxy, h.turns,
    h.metrics, h.history⟩

theorem join (c : ℕ) :
    InStep (s.join c).1 (s'.join c).1 ∧ (s.join c).2 = (s'.join c).2 := by
  have hsettled := h.settle (s.time + 1)
  have hjoined : s.collectors[c]?.bind Collector.joined? =
      s'.collectors[c]?.bind Collector.joined? := h.bind_eq (fun _ => rfl) c
  unfold Service.join
  rw [hjoined, h.endOf_eq, ← h.time]
  dsimp only
  rw [hsettled.endOf_eq]
  split
  · exact ⟨h, rfl⟩
  · split
    · exact ⟨h.forget c, rfl⟩
    · split
      · exact ⟨hsettled.forget c, rfl⟩
      · exact ⟨hsettled.setTime _, rfl⟩

/-- **Every command keeps services in step**, and gets the same answer from both. -/
theorem perform (command : Command) :
    InStep (s.perform command).1 (s'.perform command).1 ∧
      (s.perform command).2 = (s'.perform command).2 := by
  have hregistry : s.metrics.registry = s'.metrics.registry := by rw [h.metrics]
  have hcarryOut : InStep (s.carryOut command).1 (s'.carryOut command).1 ∧
      (s.carryOut command).2 = (s'.carryOut command).2 := by
    cases command with
    | start c fresh =>
        exact ⟨h.rouse fun _ _ _ _ hxy => congrArg (Collector.start · fresh) hxy, rfl⟩
    | advance millis =>
        refine ⟨?_, rfl⟩
        simp only [carryOut]
        rw [h.time]
        exact h.passUntil _
    | cancel c => exact ⟨h.rouse fun _ _ _ _ hxy => congrArg Collector.cancel hxy, rfl⟩
    | join c => exact h.join c
    | get c =>
        obtain ⟨hstep, hsame⟩ := h.census c .call
        exact ⟨hstep, congrArg (fun fetched => Answer.tally (Census.result fetched)) hsame⟩
    | collect c =>
        obtain ⟨hstep, hsame⟩ := h.census c .report
        refine ⟨hstep, ?_⟩
        exact congrArg (fun fetched => Answer.report ((Census.result fetched).map Report.ofTally))
          hsame
    | gather c =>
        exact ⟨h, congrArg (fun r : Gauge.Registry => Answer.text r.exposition) hregistry⟩
    | request c r =>
        obtain ⟨hstep, hsame⟩ := h.census c .report
        simp only [carryOut, request]
        split
        · exact ⟨h, rfl⟩
        · exact ⟨h, rfl⟩
        · exact ⟨h, by rw [hregistry]⟩
        · exact ⟨hstep, by rw [hsame]⟩
  unfold Service.perform
  split
  · rw [h.has_eq]
    split
    · exact hcarryOut
    · exact ⟨h, rfl⟩
  · exact hcarryOut

/-! ## What observers see -/

/-- **Observers see the same of both.** -/
theorem observe {t t' : Service} (h' : InStep t t') (command : Command) (answer : Answer) :
    s.observe t command answer = s'.observe t' command answer := by
  have hlength : ∀ {u u' : Service}, InStep u u' → u.history.length = u'.history.length := by
    intro u u' hu
    simpa using congrArg List.length hu.history
  have hsince : (t.since s).map Record.bare = (t'.since s').map Record.bare := by
    rw [since, since, List.map_reverse, List.map_reverse, List.map_take, List.map_take,
      hlength h, hlength h', h'.history]
  have hmarks : ∀ c, marks c (t.since s) = marks c (t'.since s') := by
    intro c
    rw [← marks_bare, hsince, marks_bare]
  have hevents : events (t.since s) = events (t'.since s') := by
    rw [← events_bare, hsince, events_bare]
  have hrunning : t.collectors.map Collector.isRunning = t'.collectors.map Collector.isRunning := by
    have hcut : ∀ u : Service, u.collectors.map Collector.isRunning =
        (u.collectors.map Collector.cutOff).map Collector.isRunning := by
      intro u
      rw [List.map_map]
      rfl
    rw [hcut, hcut, h'.collectors]
  have hcomplaints : s.complaints command = s'.complaints command := by
    rw [complaints, complaints, funext h.has_eq, h.metrics]
  unfold Service.observe
  dsimp only
  rw [hevents, hcomplaints, hrunning, h'.time, h'.metrics, h'.length]
  simp only [hmarks]

end InStep

theorem run_eq_of_inStep {s s' : Service} (h : InStep s s') (commands : List Command) :
    s.run commands = s'.run commands := by
  induction commands generalizing s s' with
  | nil => rfl
  | cons command commands ih =>
      obtain ⟨hstep, hanswer⟩ := h.perform command
      have hcons : ∀ u : Service, u.run (command :: commands) =
          u.observe (u.perform command).1 command (u.perform command).2 ::
            (u.perform command).1.run commands := fun _ => rfl
      rw [hcons, hcons, h.observe hstep, hanswer, ih hstep]

theorem create_inStep (foreign : Gauge.Registry) {sources sources' : List Source}
    (h : sources.map Source.cutOff = sources'.map Source.cutOff) :
    InStep (create foreign sources) (create foreign sources') := by
  have hlength : sources.length = sources'.length := by
    simpa using congrArg List.length h
  have hcut : ∀ sources : List Source,
      (create foreign sources).collectors.map Collector.cutOff =
        (sources.map Source.cutOff).map fun x =>
          { interval := x.interval, timeout := x.timeout, script := x.script } := by
    intro sources
    simp only [create, List.map_map]
    rfl
  refine ⟨rfl, ?_, ?_, ?_, rfl⟩
  · rw [hcut, hcut, h]
  · show List.range sources.length = List.range sources'.length
    rw [hlength]
  · show (createAll _ sources).1 = (createAll _ sources').1
    rw [createAll, createAll, hlength]

end AccountCensus.Service
