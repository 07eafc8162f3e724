import AccountCensus.Proofs.Agenda
import AccountCensus.Proofs.Registration
import Mathlib.Data.List.Basic

/-!
# The steps of a service

A command can let many things happen: loops wake one after the other, and a census in the
foreground begins, waits and ends. `Step` cuts this up: it changes one collector, or wakes one
loop, or lets time pass in which no loop wakes. What a property needs in order to hold through all
commands is therefore that each `Step` keeps it.

`Orderly` is what every step keeps and most arguments need: every collector has its turn, no loop
ticks on an interval of zero, and what is noted of a loop is noted of one that was started.
-/

namespace AccountCensus.Service

/-! ## Notes -/

section Notes

variable (s : Service) (c : ℕ) (loop : Option ℕ) (hs : List Happening)

/-- A note changes the gauges and the history only. -/
theorem noteAll_eq : s.noteAll c loop hs =
    { s with
      metrics := hs.foldl Happening.publish s.metrics
      history := (hs.map (⟨s.time, c, loop, ·⟩)).reverse ++ s.history } := by
  unfold noteAll
  induction hs generalizing s with
  | nil => rfl
  | cons h hs ih =>
      rw [List.foldl_cons, ih (s.note c loop h)]
      simp [note]

@[simp] theorem noteAll_time : (s.noteAll c loop hs).time = s.time := by
  rw [noteAll_eq]

@[simp] theorem noteAll_collectors : (s.noteAll c loop hs).collectors = s.collectors := by
  rw [noteAll_eq]

@[simp] theorem noteAll_turns : (s.noteAll c loop hs).turns = s.turns := by
  rw [noteAll_eq]

@[simp] theorem noteAll_metrics :
    (s.noteAll c loop hs).metrics = hs.foldl Happening.publish s.metrics := by
  rw [noteAll_eq]

@[simp] theorem noteAll_history : (s.noteAll c loop hs).history =
    (hs.map (⟨s.time, c, loop, ·⟩)).reverse ++ s.history := by
  rw [noteAll_eq]

end Notes

@[simp] theorem publish_ready (m : Gauge.Metrics) (h : Happening) :
    (h.publish m).ready = m.ready := by
  cases h with
  | censusEnded driver fetched => cases fetched <;> rfl
  | _ => rfl

@[simp] theorem foldl_publish_ready (m : Gauge.Metrics) (hs : List Happening) :
    (hs.foldl Happening.publish m).ready = m.ready := by
  induction hs generalizing m with
  | nil => rfl
  | cons h hs ih => rw [List.foldl_cons, ih, publish_ready]

/-- What happened to one loop of a collector, or to its censuses in the foreground, with the
times. Latest entry first. -/
def trace (c : ℕ) (loop : Option ℕ) (records : List Record) : List (ℕ × Happening) :=
  records.filterMap fun r =>
    if r.collector = c ∧ r.loop = loop then some (r.time, r.happening) else none

theorem trace_append (c : ℕ) (loop : Option ℕ) (rs rs' : List Record) :
    trace c loop (rs ++ rs') = trace c loop rs ++ trace c loop rs' :=
  List.filterMap_append

/-- The notes of one turn stand in the trace of their own loop. -/
theorem trace_notes_self (t c : ℕ) (loop : Option ℕ) (hs : List Happening) :
    trace c loop (hs.map (⟨t, c, loop, ·⟩)).reverse = (hs.map (t, ·)).reverse := by
  unfold trace
  rw [List.filterMap_reverse, List.filterMap_map]
  congr 1
  induction hs with
  | nil => rfl
  | cons h hs ih => simp

theorem trace_notes_other (t : ℕ) {c d : ℕ} {loop loop' : Option ℕ}
    (h : ¬ (d = c ∧ loop' = loop)) (hs : List Happening) :
    trace c loop (hs.map (⟨t, d, loop', ·⟩)).reverse = [] := by
  unfold trace
  rw [List.filterMap_eq_nil_iff]
  intro r hr
  obtain ⟨e, -, rfl⟩ := List.mem_map.mp (List.mem_reverse.mp hr)
  exact if_neg h

/-! ## Changes of one collector -/

/-- Collector `d` after collector `c` was changed. -/
theorem getElem?_modify_some {xs : List Collector} {c d : ℕ} {f : Collector → Collector}
    {y : Collector} (h : (xs.modify c f)[d]? = some y) :
    ∃ x, xs[d]? = some x ∧ y = if d = c then f x else x := by
  rw [List.getElem?_modify] at h
  obtain ⟨x, hx, rfl⟩ := Option.map_eq_some_iff.mp h
  exact ⟨x, hx, by simp only [eq_comm]⟩

section Rouse

variable (s : Service) (c : ℕ) (f : Collector → Collector)

/-- Rousing a loop changes its collector and the turns only. -/
theorem rouse_eq : s.rouse c f =
    { s with collectors := s.collectors.modify c f, turns := (s.rouse c f).turns } := by
  unfold rouse postpone
  dsimp only
  split
  · split <;> rfl
  · rw [List.modify_eq_self (by omega)]

@[simp] theorem rouse_time : (s.rouse c f).time = s.time := by
  rw [rouse_eq]

@[simp] theorem rouse_metrics : (s.rouse c f).metrics = s.metrics := by
  rw [rouse_eq]

@[simp] theorem rouse_history : (s.rouse c f).history = s.history := by
  rw [rouse_eq]

@[simp] theorem rouse_collectors : (s.rouse c f).collectors = s.collectors.modify c f := by
  rw [rouse_eq]

theorem mem_postpone_turns {s : Service} {c d : ℕ} (h : d ∈ s.turns) :
    d ∈ (s.postpone c).turns := by
  show d ∈ s.turns.erase c ++ [c]
  by_cases hd : d = c
  · simp [hd]
  · exact List.mem_append_left _ ((List.mem_erase_of_ne hd).mpr h)

theorem mem_rouse_turns {s : Service} {d : ℕ} (h : d ∈ s.turns) (c : ℕ)
    (f : Collector → Collector) : d ∈ (s.rouse c f).turns := by
  unfold rouse
  dsimp only
  split
  · split
    · exact h
    · exact mem_postpone_turns h
  · exact h

end Rouse

section Begin

variable (s : Service) (c : ℕ) (x : Collector)

/-- A draw changes its collector, and the turns if it wakes the loop. -/
theorem draw_eq : s.draw c x =
    { s with
      collectors := s.collectors.modify c fun _ => x.beginFetch.1
      turns := (s.draw c x).turns } := by
  unfold draw
  dsimp only
  split
  · exact rouse_eq ..
  · rfl

@[simp] theorem draw_time : (s.draw c x).time = s.time := by
  rw [draw_eq]

@[simp] theorem draw_metrics : (s.draw c x).metrics = s.metrics := by
  rw [draw_eq]

@[simp] theorem draw_history : (s.draw c x).history = s.history := by
  rw [draw_eq]

@[simp] theorem draw_collectors :
    (s.draw c x).collectors = s.collectors.modify c fun _ => x.beginFetch.1 := by
  rw [draw_eq]

theorem mem_draw_turns {s : Service} {d : ℕ} (h : d ∈ s.turns) (c : ℕ) (x : Collector) :
    d ∈ (s.draw c x).turns := by
  unfold draw
  dsimp only
  split
  · exact mem_rouse_turns h ..
  · exact h

@[simp] theorem beginCensus_time : (s.beginCensus c x).time = s.time := draw_time ..

@[simp] theorem beginCensus_metrics : (s.beginCensus c x).metrics = s.metrics :=
  draw_metrics ..

@[simp] theorem beginCensus_collectors :
    (s.beginCensus c x).collectors = s.collectors.modify c fun _ => x.beginFetch.1 :=
  draw_collectors ..

@[simp] theorem beginCensus_history : (s.beginCensus c x).history =
    ⟨s.time, c, none, .fetchBegan x.beginFetch.2⟩ :: s.history := by
  simp [beginCensus, note]

end Begin

/-! ## A wake -/

theorem wake_eq {s : Service} {w : Wake} {x : Collector}
    (hx : s.collectors[w.collector]? = some x) : s.wake w =
      { time := w.time
        collectors := s.collectors.set w.collector (x.wake w.loop w.time).1
        turns := (s.wake w).turns
        metrics := (x.wake w.loop w.time).2.foldl Happening.publish s.metrics
        history := ((x.wake w.loop w.time).2.map
          (⟨w.time, w.collector, some w.loop, ·⟩)).reverse ++ s.history } := by
  simp only [wake, hx, noteAll_eq]
  split <;> rfl

theorem mem_wake_turns {s : Service} {d : ℕ} (h : d ∈ s.turns) (w : Wake) :
    d ∈ (s.wake w).turns := by
  unfold wake
  split
  · exact h
  · rw [noteAll_turns]
    split
    · exact mem_postpone_turns h
    · exact h

/-- What one wake of a service does: loop `l` of collector `x` takes its turn. -/
structure Woken (s : Service) (w : Wake) (x : Collector) (l : Loop) (hs : List Happening)
    (phase : Phase) (began : Bool) : Prop where
  collector : s.collectors[w.collector]? = some x
  loop : x.loops[w.loop]? = some l
  wakeTime : l.wakeTime? s.time = some w.time
  turn : Turn x.interval x.timeout w.time x.beginFetch.2 l hs phase began
  time : (s.wake w).time = w.time
  collectors : (s.wake w).collectors = s.collectors.modify w.collector fun x =>
    (bif began then x.beginFetch.1 else x).setPhase w.loop phase
  metrics : (s.wake w).metrics = hs.foldl Happening.publish s.metrics
  history : (s.wake w).history =
    (hs.map (⟨w.time, w.collector, some w.loop, ·⟩)).reverse ++ s.history
  turns : ∀ c ∈ s.turns, c ∈ (s.wake w).turns

theorem exists_woken {s : Service} {w : Wake} (h : s.next? = some w) :
    ∃ x l hs phase began, Woken s w x l hs phase began := by
  obtain ⟨x, l, hx, hl, ht⟩ := next?_sound h
  obtain ⟨hs, phase, began, hturn, hwake⟩ :=
    Collector.wake_turn hl (Loop.isLive_of_wakeTime? ht) w.time
  have heq := wake_eq hx
  simp only [hwake] at heq
  refine ⟨x, l, hs, phase, began, hx, hl, ht, hturn, by rw [heq], ?_, by rw [heq], by rw [heq],
    fun c hc => mem_wake_turns hc w⟩
  rw [heq, List.modify_eq_set_getElem?, hx]
  rfl

/-! ## Steps -/

/-- What a command does to a service itself. The end of a census in the foreground ends the fetch
that was noted last for the foreground of the collector, at the time at which that fetch ends. Time
passes only as long as no loop wakes. -/
inductive Act (s : Service) : Service → Prop
  | start {c : ℕ} {x : Collector} (fresh : Bool) : s.collectors[c]? = some x →
      s.metrics.ready = true → Act s (s.rouse c (·.start fresh))
  | cancel {c : ℕ} {x : Collector} : s.collectors[c]? = some x →
      Act s (s.rouse c Collector.cancel)
  | forget (c : ℕ) : Act s (s.forget c)
  | begin {c : ℕ} {x : Collector} : s.collectors[c]? = some x → Act s (s.beginCensus c x)
  | finish {c t : ℕ} {x : Collector} {f : Fetch} {old : List (ℕ × Happening)}
      (driver : Census.Driver) : s.collectors[c]? = some x →
      trace c none s.history = (t, .fetchBegan f) :: old →
      s.time = t + (f.ending x.timeout).after →
      Act s (s.noteAll c none ((f.ending x.timeout).happenings driver))
  | wait {t : ℕ} : s.time ≤ t → (∀ w, s.next? = some w → t ≤ w.time) →
      Act s { s with time := t }

inductive Step (s : Service) : Service → Prop
  | act {s' : Service} : Act s s' → Step s s'
  | wake {w : Wake} : s.next? = some w → Step s (s.wake w)

/-- **What a step notes**: some happenings of one loop or of the foreground of one collector, at
the time at which the step ends. The gauges follow them. -/
theorem Step.notes {s s' : Service} (h : Step s s') :
    s.time ≤ s'.time ∧ ∃ (c : ℕ) (loop : Option ℕ) (hs : List Happening),
      s'.history = (hs.map (⟨s'.time, c, loop, ·⟩)).reverse ++ s.history ∧
      s'.metrics = hs.foldl Happening.publish s.metrics := by
  cases h with
  | act h =>
      cases h with
      | start fresh hx hready => exact ⟨by simp, 0, none, [], by simp⟩
      | cancel hx => exact ⟨by simp, 0, none, [], by simp⟩
      | forget c => exact ⟨le_rfl, 0, none, [], rfl, rfl⟩
      | @begin c x hx =>
          exact ⟨by simp, c, none, [.fetchBegan x.beginFetch.2], by simp,
            by simp [Happening.publish]⟩
      | @finish c t x f old driver hx htrace htime =>
          exact ⟨by simp, c, none, (f.ending x.timeout).happenings driver, by simp, by simp⟩
      | wait ht hquiet => exact ⟨ht, 0, none, [], rfl, rfl⟩
  | @wake w hw =>
      obtain ⟨x, l, hs, phase, began, h⟩ := exists_woken hw
      rw [h.time]
      exact ⟨Loop.le_wakeTime? h.wakeTime, _, _, hs, h.history, h.metrics⟩

/-! ## Order -/

/-- A loop panics exactly if its interval is zero, and ticks only if it is not. -/
def Phase.Fits (interval : Duration) : Phase → Prop
  | .spawned | .stopped => True
  | .waiting _ | .fetching .. => interval.nanos ≠ 0
  | .panicked => interval.nanos = 0

theorem Phase.fits_waiting {interval : Duration} {due : ℕ} :
    (Phase.waiting due).Fits interval ↔ interval.nanos ≠ 0 := Iff.rfl

theorem Phase.fits_fetching {interval : Duration} {due finish : ℕ} {e : Ending} :
    (Phase.fetching due finish e).Fits interval ↔ interval.nanos ≠ 0 := Iff.rfl

theorem Turn.fits {interval timeout : Duration} {now : ℕ} {f : Fetch} {l : Loop}
    {hs : List Happening} {phase : Phase} {began : Bool}
    (h : Turn interval timeout now f l hs phase began) (hl : l.phase.Fits interval) :
    phase.Fits interval := by
  cases h with
  | panic _ hz => exact hz
  | start _ hz => exact Phase.fits_waiting.mpr hz
  | stop _ _ => trivial
  | serve hp _ _ =>
      rw [hp, Phase.fits_waiting] at hl
      exact Phase.fits_waiting.mpr hl
  | fetch hp _ _ =>
      rw [hp, Phase.fits_waiting] at hl
      exact Phase.fits_fetching.mpr hl
  | abandon _ _ => trivial
  | finish hp _ =>
      rw [hp, Phase.fits_fetching] at hl
      exact Phase.fits_waiting.mpr hl

structure Collector.Valid (x : Collector) : Prop where
  fits : ∀ l ∈ x.loops, l.phase.Fits x.interval
  joinable : ∀ k, x.joinable = some k → k < x.loops.length

namespace Collector.Valid

variable {x : Collector} (hx : x.Valid)
include hx

theorem told (b : Bool) : ∀ l ∈ x.loops.map (Loop.told b), l.phase.Fits x.interval := by
  intro l hl
  obtain ⟨l', hl', rfl⟩ := List.mem_map.mp hl
  exact hx.fits l' hl'

theorem start (fresh : Bool) : (x.start fresh).Valid := by
  constructor
  · intro l hl
    rcases List.mem_append.mp hl with hl | hl
    · exact hx.fits l hl
    · rw [List.mem_singleton.mp hl]
      trivial
  · intro k hk
    obtain rfl : x.loops.length = k := Option.some.inj hk
    simp [Collector.start]

theorem cancel : x.cancel.Valid := by
  constructor
  · rw [cancel_loops]
    exact hx.told true
  · rw [cancel_loops, List.length_map]
    exact hx.joinable

theorem beginFetch : x.beginFetch.1.Valid := by
  constructor
  · rw [beginFetch_loops, beginFetch_interval]
    exact hx.told _
  · rw [beginFetch_loops, beginFetch_joinable, List.length_map]
    exact hx.joinable

theorem forget : { x with joinable := none }.Valid := ⟨hx.fits, by simp⟩

theorem setPhase {phase : Phase} (hphase : phase.Fits x.interval) (k : ℕ) :
    (x.setPhase k phase).Valid := by
  constructor
  · intro l hl
    obtain ⟨j, hj⟩ := List.getElem?_of_mem hl
    rw [setPhase_getElem?] at hj
    split at hj
    · obtain ⟨l', hl', rfl⟩ := Option.map_eq_some_iff.mp hj
      exact hphase
    · exact hx.fits l (List.mem_of_getElem? hj)
  · simpa [Collector.setPhase] using hx.joinable

end Collector.Valid

/-- Every collector is valid and has its turn, loops run only where the gauges are registered,
and what is noted of a loop is noted of one that was started. -/
structure Orderly (s : Service) : Prop where
  turns : ∀ c < s.collectors.length, c ∈ s.turns
  valid : ∀ (c : ℕ) x, s.collectors[c]? = some x → x.Valid
  ready : ∀ (c : ℕ) x, s.collectors[c]? = some x → x.loops ≠ [] → s.metrics.ready = true
  noted : ∀ r ∈ s.history, ∀ k, r.loop = some k →
    ∃ x, s.collectors[r.collector]? = some x ∧ k < x.loops.length

namespace Orderly

variable {s : Service} (hs : s.Orderly)
include hs

/-- A change of one collector that keeps it valid and starts loops only where it may. -/
theorem modify {s' : Service} {c : ℕ} {f : Collector → Collector}
    (hf : ∀ x, s.collectors[c]? = some x → (f x).Valid ∧ x.loops.length ≤ (f x).loops.length ∧
      ((f x).loops ≠ [] → x.loops ≠ [] ∨ s.metrics.ready = true))
    (hcollectors : s'.collectors = s.collectors.modify c f)
    (hturns : ∀ d ∈ s.turns, d ∈ s'.turns) (hready : s'.metrics.ready = s.metrics.ready)
    (hnoted : ∀ r ∈ s'.history, r ∈ s.history ∨ ∀ k, r.loop = some k →
      ∃ x, s.collectors[r.collector]? = some x ∧ k < x.loops.length) : s'.Orderly := by
  -- no loop is ever taken away, so what was noted of one stays so
  have hkept : ∀ {d k : ℕ}, (∃ x, s.collectors[d]? = some x ∧ k < x.loops.length) →
      ∃ x, s'.collectors[d]? = some x ∧ k < x.loops.length := by
    rintro d k ⟨x, hx, hk⟩
    rw [hcollectors, List.getElem?_modify, hx]
    by_cases hd : c = d
    · subst hd
      exact ⟨f x, by simp, hk.trans_le (hf x hx).2.1⟩
    · exact ⟨x, by simp [hd], hk⟩
  constructor
  · intro d hd
    rw [hcollectors, List.length_modify] at hd
    exact hturns d (hs.turns d hd)
  · intro d y hy
    rw [hcollectors] at hy
    obtain ⟨x, hx, rfl⟩ := getElem?_modify_some hy
    split
    · rename_i hd
      exact (hf x (hd ▸ hx)).1
    · exact hs.valid d x hx
  · intro d y hy hloops
    rw [hcollectors] at hy
    obtain ⟨x, hx, rfl⟩ := getElem?_modify_some hy
    rw [hready]
    split at hloops
    · rename_i hd
      rcases (hf x (hd ▸ hx)).2.2 hloops with h | h
      · exact hs.ready d x hx h
      · exact h
    · exact hs.ready d x hx hloops
  · intro r hr k hk
    rcases hnoted r hr with h | h
    · exact hkept (hs.noted r h k hk)
    · exact hkept (h k hk)

end Orderly

theorem Act.orderly {s s' : Service} (h : Act s s') (hs : s.Orderly) : s'.Orderly := by
  cases h with
  | @start c x fresh hx hready =>
      refine hs.modify (fun y hy => ?_) (rouse_collectors ..)
        (fun d hd => mem_rouse_turns hd ..) (by simp) (by simp +contextual)
      exact ⟨(hs.valid c y hy).start fresh, by simp [Collector.start], fun _ => .inr hready⟩
  | @cancel c x hx =>
      refine hs.modify (fun y hy => ?_) (rouse_collectors ..)
        (fun d hd => mem_rouse_turns hd ..) (by simp) (by simp +contextual)
      exact ⟨(hs.valid c y hy).cancel, by simp [Collector.cancel_loops],
        fun h => .inl (by simpa [Collector.cancel_loops] using h)⟩
  | forget c =>
      refine hs.modify (c := c) (fun y hy => ?_) rfl (fun d hd => hd) rfl (fun r hr => .inl hr)
      exact ⟨(hs.valid c y hy).forget, le_rfl, .inl⟩
  | @begin c x hx =>
      refine hs.modify (fun y hy => ?_) (beginCensus_collectors ..)
        (fun d hd => mem_draw_turns hd ..) (by simp) ?_
      · obtain rfl : x = y := Option.some.inj (hx.symm.trans hy)
        exact ⟨(hs.valid c x hx).beginFetch, by simp [Collector.beginFetch_loops],
          fun h => .inl (by simpa [Collector.beginFetch_loops] using h)⟩
      · intro r hr
        rw [beginCensus_history] at hr
        rcases List.mem_cons.mp hr with rfl | hr
        · exact .inr fun k hk => by cases hk
        · exact .inl hr
  | finish driver hx htrace htime =>
      refine ⟨by simpa using hs.turns, by simpa using hs.valid, by simpa using hs.ready, ?_⟩
      intro r hr k hk
      rw [noteAll_collectors]
      rw [noteAll_history] at hr
      rcases List.mem_append.mp hr with hr | hr
      · obtain ⟨e, -, rfl⟩ := List.mem_map.mp (List.mem_reverse.mp hr)
        cases hk
      · exact hs.noted r hr k hk
  | wait ht hquiet => exact ⟨hs.turns, hs.valid, hs.ready, hs.noted⟩

/-- **Every step keeps the order.** -/
theorem Step.orderly {s s' : Service} (h : Step s s') (hs : s.Orderly) : s'.Orderly := by
  cases h with
  | act h => exact h.orderly hs
  | @wake w hw =>
      obtain ⟨x, l, hs', phase, began, h⟩ := exists_woken hw
      refine hs.modify (fun y hy => ?_) h.collectors h.turns (by simp [h.metrics]) ?_
      · obtain rfl : x = y := Option.some.inj (h.collector.symm.trans hy)
        have hv := hs.valid _ x h.collector
        have hfits := h.turn.fits (hv.fits l (List.mem_of_getElem? h.loop))
        have hne : x.loops ≠ [] := List.ne_nil_of_mem (List.mem_of_getElem? h.loop)
        cases began with
        | false => exact ⟨hv.setPhase hfits _, by simp [Collector.setPhase], fun _ => .inl hne⟩
        | true =>
            refine ⟨hv.beginFetch.setPhase (by simpa using hfits) _, ?_, fun _ => .inl hne⟩
            simp [Collector.setPhase, Collector.beginFetch_loops]
      · intro r hr
        rw [h.history] at hr
        rcases List.mem_append.mp hr with hr | hr
        · obtain ⟨e, -, rfl⟩ := List.mem_map.mp (List.mem_reverse.mp hr)
          refine .inr fun k hk => ⟨x, h.collector, ?_⟩
          obtain rfl : w.loop = k := Option.some.inj hk
          exact (List.getElem?_eq_some_iff.mp h.loop).1
        · exact .inl hr

end AccountCensus.Service
