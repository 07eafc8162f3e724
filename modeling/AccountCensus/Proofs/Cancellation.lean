import AccountCensus.Proofs.LatestAnswer

/-!
# Cancellation is prompt and final

A loop whose token is cancelled wakes at once, whatever it waits for, and what it does from there
on depends on its phase alone: `lastWords`. `cancelled_changes` is the invariant: what such a loop
has noted since, together with what it has still to note, is what it had to note when it was
cancelled, and as long as there is something left the clock stands still. None of it begins a
fetch or ends a census.

A fetch can cancel the token itself. It is then the last fetch of its loop, and completes if it
ends at once (`self_cancelled`).
-/

namespace AccountCensus.Service

open Relation

/-! ## Last words -/

/-- What a loop that is cancelled in this phase still notes. -/
def lastWords (interval : Duration) : Phase → List Happening
  | .spawned => .loopStarted interval :: if interval.nanos = 0 then [] else [.loopStopped]
  | .waiting _ => [.loopStopped]
  | .fetching .. => [.fetchEnded false, .loopStopped]
  | .stopped | .panicked => []

/-- No fetch is begun, nothing is answered and no census ends well. -/
theorem lastWords_silent {interval : Duration} {phase : Phase} :
    ∀ h ∈ lastWords interval phase, h.fetch? = none ∧ h.isSilent = true := by
  cases phase with
  | spawned =>
      rw [lastWords]
      split <;> simp [Happening.fetch?, Happening.isSilent]
  | waiting due => simp [lastWords, Happening.fetch?, Happening.isSilent]
  | fetching due finish e => simp [lastWords, Happening.fetch?, Happening.isSilent]
  | stopped => simp [lastWords]
  | panicked => simp [lastWords]

theorem Turn.lastWords {interval timeout : Duration} {now : ℕ} {f : Fetch} {l : Loop}
    {hs : List Happening} {phase : Phase} {began : Bool}
    (h : Turn interval timeout now f l hs phase began) (hc : l.cancelled = true) :
    hs ++ Service.lastWords interval phase = Service.lastWords interval l.phase := by
  cases h with
  | panic hp hz => simp [Service.lastWords, hp, hz]
  | start hp hz => simp [Service.lastWords, hp, hz]
  | stop hp _ => simp [Service.lastWords, hp]
  | abandon hp _ => simp [Service.lastWords, hp]
  | serve _ hc' _ => rw [hc] at hc'; cases hc'
  | fetch _ hc' _ => rw [hc] at hc'; cases hc'
  | finish _ hc' => rw [hc] at hc'; cases hc'

theorem lastWords_of_not_live {interval : Duration} {l : Loop} (h : l.isLive ≠ true) :
    lastWords interval l.phase = [] := by
  unfold Loop.isLive at h
  cases hp : l.phase <;> simp_all [lastWords]

/-- A cancelled loop on its way to the end: of its words it has noted `newer`, all of them in
millisecond `t`, and what is left are its last words. -/
structure WindsDown (interval : Duration) (t : ℕ) (words : List Happening) (v : View)
    (newer : List (ℕ × Happening)) : Prop where
  cancelled : v.loop.cancelled = true
  now : v.loop.isLive = true → v.now = t
  said : ∃ hs, newer = (hs.map (t, ·)).reverse ∧ hs ++ lastWords interval v.loop.phase = words

section WindsDown

variable {interval timeout : Duration} {t : ℕ} {words : List Happening} {v v' : View}
  {newer : List (ℕ × Happening)}

theorem WindsDown.idle (h : WindsDown interval t words v newer) (hidle : Idle v v') :
    WindsDown interval t words v' newer := by
  obtain ⟨hc, hnow⟩ := hidle.cancelled h.cancelled
  refine ⟨hc, fun hlive => ?_, ?_⟩
  · rw [hidle.isLive] at hlive
    exact (hnow hlive).trans (h.now hlive)
  · rw [hidle.phase]
    exact h.said

theorem WindsDown.turn {f : Fetch} {hs : List Happening} {phase : Phase} {began : Bool}
    (h : WindsDown interval t words v newer) (hwake : v.loop.wakeTime? v.now = some v.now)
    (hturn : Turn interval timeout v.now f v.loop hs phase began) (cancels : Bool) :
    WindsDown interval t words (v.turned hs phase cancels)
      ((hs.map (v.now, ·)).reverse ++ newer) := by
  obtain ⟨hs₀, hnewer, hwords⟩ := h.said
  have hnow := h.now (Loop.isLive_of_wakeTime? hwake)
  refine ⟨by simp [View.turned, h.cancelled], fun _ => hnow, hs₀ ++ hs, ?_, ?_⟩
  · simp [hnewer, hnow]
  · rw [List.append_assoc]
    exact (congrArg (hs₀ ++ ·) (hturn.lastWords h.cancelled)).trans hwords

/-- **A cancelled loop says its last words and no others**, and the clock waits for them. -/
theorem cancelled_changes (h : ReflTransGen (Change interval timeout) v v')
    (hc : v.loop.cancelled = true) :
    ∃ newer, v'.trace = newer ++ v.trace ∧
      WindsDown interval v.now (lastWords interval v.loop.phase) v' newer := by
  induction h with
  | refl => exact ⟨[], rfl, hc, fun _ => rfl, [], rfl, rfl⟩
  | tail _ hchange ih =>
      obtain ⟨newer, htrace, hdown⟩ := ih
      cases hchange with
      | idle hidle => exact ⟨newer, hidle.trace.trans htrace, hdown.idle hidle⟩
      | turn hwake hturn =>
          refine ⟨_, ?_, hdown.turn hwake hturn _⟩
          rw [View.turned, htrace, List.append_assoc]

end WindsDown

/-! ## Fetches that cancel the token -/

/-- What a loop notes after the beginning of a fetch that cancels its token. -/
def Fetch.finalWords (timeout : Duration) (f : Fetch) : List Happening :=
  if (f.ending timeout).after = 0 then (f.ending timeout).happenings .loop ++ [.loopStopped]
  else [.fetchEnded false, .loopStopped]

/-- The beginning of a fetch is not among notes that begin none. -/
theorem split_notes {t u : ℕ} {f : Fetch} {hs : List Happening}
    (hhs : ∀ h ∈ hs, h.fetch? = none) {tr newer older : List (ℕ × Happening)}
    (h : (hs.map (u, ·)).reverse ++ tr = newer ++ (t, .fetchBegan f) :: older) :
    ∃ newer', newer = (hs.map (u, ·)).reverse ++ newer' ∧
      tr = newer' ++ (t, .fetchBegan f) :: older := by
  rcases List.append_eq_append_iff.mp h with ⟨newer', hnewer, htr⟩ | ⟨rest, hnotes, hrest⟩
  · exact ⟨newer', hnewer, htr⟩
  · cases rest with
    | nil => exact ⟨[], by simpa using hnotes.symm, hrest.symm⟩
    | cons e rest =>
        obtain ⟨rfl, -⟩ := List.cons_eq_cons.mp hrest
        have hmem : (t, Happening.fetchBegan f) ∈ (hs.map (u, ·)).reverse := by
          rw [hnotes]
          simp
        obtain ⟨e, he, heq⟩ := List.mem_map.mp (List.mem_reverse.mp hmem)
        obtain ⟨-, rfl⟩ := Prod.mk.inj heq
        cases hhs _ he

/-- **A fetch that cancels the token is the last one of its loop.** -/
theorem self_cancelled {interval timeout : Duration} {v : View} (h : Life interval timeout v) :
    ∀ newer t f older, v.trace = newer ++ (t, .fetchBegan f) :: older → f.cancels = true →
      WindsDown interval t (f.finalWords timeout) v newer := by
  refine life_induction (P := fun v => ∀ newer t f older,
    v.trace = newer ++ (t, .fetchBegan f) :: older → f.cancels = true →
      WindsDown interval t (f.finalWords timeout) v newer) ?_ ?_ h
  · intro now cancelled newer t f older htrace
    simp [View.born] at htrace
  · intro v v' hchange ih
    cases hchange with
    | idle hidle =>
        intro newer t f older htrace hf
        rw [hidle.trace] at htrace
        exact (ih newer t f older htrace hf).idle hidle
    | @turn g hs phase began hwake hturn =>
        intro newer t f older htrace hf
        -- a turn that begins no fetch: the fetch is one of before
        have hquiet : (∀ h ∈ hs, h.fetch? = none) →
            WindsDown interval t (f.finalWords timeout)
              (v.turned hs phase (began && g.cancels)) newer := by
          intro hhs
          obtain ⟨newer', rfl, htr⟩ := split_notes hhs htrace
          exact (ih newer' t f older htr hf).turn hwake hturn _
        -- a turn that begins one: the loop was not cancelled, so no fetch of before did that
        have hbegan : ∀ rest : List Happening, (∀ h ∈ rest, h.fetch? = none) →
            v.loop.cancelled = false →
            (rest.map (v.now, ·)).reverse ++ (v.now, .fetchBegan g) :: v.trace =
              newer ++ (t, .fetchBegan f) :: older →
            newer = (rest.map (v.now, ·)).reverse ∧ t = v.now ∧ f = g := by
          intro rest hrest hc heq
          obtain ⟨newer', rfl, htr⟩ := split_notes hrest heq
          rcases List.cons_eq_append_iff.mp htr with ⟨rfl, hcons⟩ | ⟨newer'', rfl, htr'⟩
          · obtain ⟨hfirst, -⟩ := List.cons_eq_cons.mp hcons
            obtain ⟨rfl, hfetch⟩ := Prod.mk.inj hfirst
            exact ⟨List.append_nil _, rfl, Happening.fetchBegan.inj hfetch⟩
          · rw [(ih newer'' t f older htr' hf).cancelled] at hc
            cases hc
        cases hturn with
        | @serve due hp hc ha =>
            obtain ⟨rfl, rfl, rfl⟩ := hbegan ((g.ending timeout).happenings .loop)
              (by simp [Ending.happenings, Happening.fetch?]) hc
              (by simpa [View.turned] using htrace)
            refine ⟨by simp [View.turned, hf], fun _ => rfl, _, rfl, ?_⟩
            simp [View.turned, Fetch.finalWords, ha, lastWords]
        | @fetch due hp hc ha =>
            obtain ⟨rfl, rfl, rfl⟩ := hbegan [] (by simp) hc
              (by simpa [View.turned] using htrace)
            refine ⟨by simp [View.turned, hf], fun _ => rfl, [], rfl, ?_⟩
            simp [View.turned, Fetch.finalWords, ha, lastWords]
        | panic _ _ => exact hquiet (by simp [Happening.fetch?])
        | start _ _ => exact hquiet (by simp [Happening.fetch?])
        | stop _ _ => exact hquiet (by simp [Happening.fetch?])
        | abandon _ _ => exact hquiet (by simp [Happening.fetch?])
        | finish _ _ => exact hquiet (by simp [Ending.happenings, Happening.fetch?])

/-- At rest the loop of such a fetch has said all it had to say. -/
theorem self_cancelled_at_rest {s₀ s : Service} {c k : ℕ} {interval timeout : Duration} {v : View}
    (h₀ : s₀.Orderly) (hfresh : s₀.Fresh) (h : ReflTransGen Stride s₀ s)
    (hv : s.Sees c k interval timeout v) {newer older : List (ℕ × Happening)} {t : ℕ} {f : Fetch}
    (htrace : v.trace = newer ++ (t, .fetchBegan f) :: older) (hf : f.cancels = true) :
    newer = ((f.finalWords timeout).map (t, ·)).reverse := by
  have hdead : ∀ newer t f older, v.trace = newer ++ (t, .fetchBegan f) :: older →
      f.cancels = true → v.loop.isLive ≠ true := by
    refine rest_induction h₀ hfresh (P := fun v => ∀ newer t f older,
      v.trace = newer ++ (t, .fetchBegan f) :: older → f.cancels = true →
        v.loop.isLive ≠ true) ?_ ?_ ?_ h hv
    · intro now cancelled newer t f older htrace
      simp [View.born] at htrace
    · intro v v' hidle ih
      rw [hidle.trace, hidle.isLive]
      exact ih
    · intro v hlife hquiet newer t f older htrace hf hlive
      have hcancelled := (self_cancelled hlife newer t f older htrace hf).cancelled
      exact absurd (hquiet _ (Loop.wakeTime?_cancelled hlive hcancelled _)) (lt_irrefl _)
  have hlife := life_of_steps h₀ hfresh (steps_of_strides h) hv
  obtain ⟨words, rfl, hwords⟩ := (self_cancelled hlife newer t f older htrace hf).said
  rw [← hwords, lastWords_of_not_live (hdead _ t f older htrace hf), List.append_nil]

/-! ## Cancelling and joining -/

section Join

variable {s : Service} {c k : ℕ} {x : Collector} {l : Loop}

theorem Sees.forget {interval timeout : Duration} {v : View}
    (hv : s.Sees c k interval timeout v) : (s.forget c).Sees c k interval timeout v :=
  hv.modify (d := c) rfl (fun _ _ hl _ => ⟨rfl, rfl, hl⟩) (fun _ => rfl) hv.now hv.trace

theorem endOf_eq (hx : s.collectors[c]? = some x) (hjoin : x.joinable = some k)
    (hl : x.loops[k]? = some l) : s.endOf c = l.end? := by
  simp [endOf, hx, Collector.joined?, hjoin, hl]

/-- A loop that does not tick on zero has stopped, or it is live. -/
theorem phase_of_not_live {interval : Duration} (hfits : l.phase.Fits interval)
    (hz : interval.nanos ≠ 0) (h : l.isLive ≠ true) : l.phase = .stopped := by
  unfold Loop.isLive at h
  cases hp : l.phase with
  | stopped => rfl
  | panicked =>
      rw [hp] at hfits
      exact absurd hfits hz
  | _ => simp [hp] at h

/-- Settling for a millisecond ends a cancelled loop, and the clock does not move. -/
theorem settle_cancelled (hs : s.Orderly) (hx : s.collectors[c]? = some x)
    (hl : x.loops[k]? = some l) (hc : l.cancelled = true) (hz : x.interval.nanos ≠ 0) :
    (s.settle (s.time + 1)).time = s.time ∧
      ∃ v, (s.settle (s.time + 1)).Sees c k x.interval x.timeout v ∧ v.loop.phase = .stopped := by
  have hsteps := s.settle_steps (s.time + 1)
  have hsettled := orderly_of_steps hsteps hs
  have hge : s.time ≤ (s.settle (s.time + 1)).time := time_le_of_steps hsteps
  have hle : (s.settle (s.time + 1)).time ≤ s.time := by
    rcases s.settle_eq_or_time_lt (s.time + 1) with heq | hlt
    · rw [heq]
    · omega
  obtain ⟨v, hv, hchanges⟩ := sees_of_steps hsteps hs (sees_of_loop hx hl)
  obtain ⟨newer, -, hdown⟩ := cancelled_changes hchanges hc
  -- a live loop would still have to wake in this millisecond
  have hdead : v.loop.isLive ≠ true := by
    intro hlive
    obtain ⟨w, hw, hwle⟩ := hv.exists_wake hsettled
      (Loop.wakeTime?_cancelled hlive hdown.cancelled v.now)
    have hquiet := settle_quiet hs (s.time + 1) w hw
    have hnow := hv.now
    omega
  obtain ⟨y, hy, hyi, -, hyl⟩ := hv.exists_collector
  have hfits := (hsettled.valid c y hy).fits v.loop (List.mem_of_getElem? hyl)
  exact ⟨le_antisymm hle hge, v, hv, phase_of_not_live hfits (hyi ▸ hz) hdead⟩

theorem endOf_stopped {interval timeout : Duration} {v : View}
    (hx : s.collectors[c]? = some x) (hjoin : x.joinable = some k)
    (hv : s.Sees c k interval timeout v) (hstopped : v.loop.phase = .stopped) :
    s.endOf c = some .stopped := by
  obtain ⟨y, hy, -, -, hl⟩ := hv.exists_collector
  obtain rfl : x = y := Option.some.inj (hx.symm.trans hy)
  rw [endOf_eq hx hjoin hl, Loop.end?, hstopped]

/-- **A cancelled loop ends when it is joined**, and the clock does not move. -/
theorem join_cancelled (hs : s.Orderly) (hx : s.collectors[c]? = some x)
    (hjoin : x.joinable = some k) (hl : x.loops[k]? = some l) (hc : l.cancelled = true)
    (hz : x.interval.nanos ≠ 0) :
    (s.join c).2 = .stopped ∧ (s.join c).1.time = s.time ∧
      ∃ v, (s.join c).1.Sees c k x.interval x.timeout v ∧ v.loop.phase = .stopped := by
  have hsees := sees_of_loop hx hl
  have hsome : (s.collectors[c]?.bind Collector.joined?).isNone = false := by
    simp [hx, Collector.joined?, hjoin, hl]
  by_cases hlive : l.isLive = true
  · obtain ⟨htime, v, hv, hstopped⟩ := settle_cancelled hs hx hl hc hz
    obtain ⟨y, hy, -, hyj⟩ := settle_collector (s.time + 1) hx
    have hend : s.endOf c = none := by
      rw [endOf_eq hx hjoin hl]
      unfold Loop.isLive at hlive
      unfold Loop.end?
      cases hp : l.phase <;> simp_all
    have hend' := endOf_stopped hy (hyj.trans hjoin) hv hstopped
    have hresult : s.join c = ((s.settle (s.time + 1)).forget c, .stopped) := by
      simp only [join, hsome, hend, hend']
      rfl
    rw [hresult]
    exact ⟨rfl, htime, v, hv.forget, hstopped⟩
  · have hfits := (hs.valid c x hx).fits l (List.mem_of_getElem? hl)
    have hstopped := phase_of_not_live hfits hz hlive
    have hend := endOf_stopped hx hjoin hsees hstopped
    have hresult : s.join c = (s.forget c, .stopped) := by
      simp only [join, hsome, hend]
      rfl
    rw [hresult]
    exact ⟨rfl, rfl, _, hsees.forget, hstopped⟩

/-- In every continuation a cancelled loop says a part of its last words. -/
theorem words_of_steps {s' : Service} {interval timeout : Duration} {v : View} (hs : s.Orderly)
    (h : ReflTransGen Step s s') (hv : s.Sees c k interval timeout v)
    (hc : v.loop.cancelled = true) :
    ∃ hs, trace c (some k) s'.history =
        (hs.map (s.time, ·)).reverse ++ trace c (some k) s.history ∧
      hs <+: lastWords interval v.loop.phase ∧
      ∀ h ∈ hs, h.fetch? = none ∧ h.isSilent = true := by
  obtain ⟨v', hv', hchanges⟩ := sees_of_steps h hs hv
  obtain ⟨newer, htrace, hdown⟩ := cancelled_changes hchanges hc
  obtain ⟨words, rfl, hwords⟩ := hdown.said
  have hpart : words <+: lastWords interval v.loop.phase := ⟨_, hwords⟩
  refine ⟨words, ?_, hpart, fun h hh => lastWords_silent h (hpart.subset hh)⟩
  rw [← hv'.trace, htrace, hv.now, hv.trace]

/-- When it was joined a cancelled loop has said all its last words, and nothing follows. -/
theorem join_words (hs : s.Orderly) (hx : s.collectors[c]? = some x)
    (hjoin : x.joinable = some k) (hl : x.loops[k]? = some l) (hc : l.cancelled = true)
    (hz : x.interval.nanos ≠ 0) :
    trace c (some k) (s.join c).1.history =
        ((lastWords x.interval l.phase).map (s.time, ·)).reverse ++ trace c (some k) s.history ∧
      ∀ s', ReflTransGen Step (s.join c).1 s' →
        trace c (some k) s'.history = trace c (some k) (s.join c).1.history := by
  obtain ⟨-, -, v, hv, hstopped⟩ := join_cancelled hs hx hjoin hl hc hz
  have hsteps := steps_of_strides (join_strides hs c)
  obtain ⟨v', hv', hchanges⟩ := sees_of_steps hsteps hs (sees_of_loop hx hl)
  obtain rfl := hv.unique hv'
  obtain ⟨newer, htrace, hdown⟩ := cancelled_changes hchanges hc
  constructor
  · obtain ⟨words, rfl, hwords⟩ := hdown.said
    rw [hstopped, lastWords, List.append_nil] at hwords
    rw [← hv.trace, htrace, hwords]
  · intro s' h
    obtain ⟨words, htrace, hpart, -⟩ :=
      words_of_steps (orderly_of_steps hsteps hs) h hv hdown.cancelled
    rw [hstopped, lastWords, List.prefix_nil] at hpart
    rw [htrace, hpart]
    rfl

end Join

/-- **Cancellation is prompt and final.** Of any loop of any service, after any commands:

- if it is the one to join, cancelling and joining it answers that it has stopped, at the same
  millisecond, and it has said its last words: a fetch in flight is abandoned. Nothing that
  follows adds to that.
- Whatever follows a cancellation, the loop says last words only: it begins no fetch and no
  census of it ends well.
- If its token was cancelled before it first runs it never begins a fetch.
- If one of its fetches cancelled the token, that was the last one: it completed if it ended at
  once, and was abandoned if it had to wait. -/
theorem cancellation_is_prompt_and_final (foreign : Gauge.Registry) (sources : List Source)
    (commands : List Command) (c k : ℕ) (x : Collector) (l : Loop) :
    let s := (create foreign sources).after commands
    s.collectors[c]? = some x → x.loops[k]? = some l →
    (x.joinable = some k → x.interval.nanos ≠ 0 →
      let cancelled := s.after [.cancel c]
      let joined := cancelled.after [.join c]
      (cancelled.perform (.join c)).2 = .stopped ∧ joined.time = s.time ∧
      trace c (some k) joined.history =
        ((lastWords x.interval l.phase).map (s.time, ·)).reverse ++
          trace c (some k) s.history ∧
      (∀ due finish e, l.phase = .fetching due finish e → trace c (some k) joined.history =
        (s.time, .loopStopped) :: (s.time, .fetchEnded false) :: trace c (some k) s.history) ∧
      ∀ commands', trace c (some k) (joined.after commands').history =
        trace c (some k) joined.history) ∧
    (∀ commands', ∃ hs, trace c (some k) ((s.after [.cancel c]).after commands').history =
        (hs.map (s.time, ·)).reverse ++ trace c (some k) s.history ∧
      hs <+: lastWords x.interval l.phase ∧ ∀ h ∈ hs, h.fetch? = none ∧ h.isSilent = true) ∧
    (l.phase = .spawned → l.cancelled = true →
      ∀ commands', ∀ e ∈ trace c (some k) (s.after commands').history, e.2.fetch? = none) ∧
    ∀ newer t f older, trace c (some k) s.history = newer ++ (t, .fetchBegan f) :: older →
      f.cancels = true → newer = ((f.finalWords x.timeout).map (t, ·)).reverse := by
  intro s hx hl
  have h₀ := create_orderly foreign sources
  have hfresh := create_fresh foreign sources
  have hstrides : ReflTransGen Stride (create foreign sources) s := after_strides h₀ commands
  have hs : s.Orderly := after_orderly h₀ commands
  have hsees := sees_of_loop hx hl
  have hlife := life_of_steps h₀ hfresh (steps_of_strides hstrides) hsees
  -- the service and the loop once the token is cancelled
  have hcancel : s.after [.cancel c] = s.rouse c Collector.cancel := rfl
  have hx' : (s.rouse c Collector.cancel).collectors[c]? = some x.cancel := by
    simp [hx]
  have hl' : x.cancel.loops[k]? = some (l.told true) := by
    simp [Collector.cancel_loops, hl]
  have hs' : (s.rouse c Collector.cancel).Orderly := (Act.cancel hx).orderly hs
  have hsees' := sees_of_loop hx' hl'
  have hwords : ∀ {s'}, ReflTransGen Step (s.rouse c Collector.cancel) s' →
      ∃ hs, trace c (some k) s'.history =
          (hs.map (s.time, ·)).reverse ++ trace c (some k) s.history ∧
        hs <+: lastWords x.interval l.phase ∧ ∀ h ∈ hs, h.fetch? = none ∧ h.isSilent = true := by
    intro s' h
    simpa using words_of_steps hs' h hsees' (by simp)
  refine ⟨fun hjoin hz => ?_, fun commands' => ?_, fun hp hc commands' => ?_, ?_⟩
  · intro cancelled joined
    have hhas : cancelled.has c = true := by
      have hready := hs.ready c x hx (List.ne_nil_of_mem (List.mem_of_getElem? hl))
      have hlt := (List.getElem?_eq_some_iff.mp hx').1
      simpa [has, cancelled, hcancel, hready] using hlt
    have hperform : cancelled.perform (.join c) = cancelled.join c := by
      simp [perform, Command.needs, hhas, carryOut]
    have hjoined : joined = (cancelled.join c).1 := congrArg Prod.fst hperform
    obtain ⟨hanswer, htime, -⟩ := join_cancelled hs' hx' hjoin hl' (by simp) hz
    obtain ⟨htrace, hfinal⟩ := join_words hs' hx' hjoin hl' (by simp) hz
    rw [rouse_time] at htime htrace
    rw [rouse_history] at htrace
    have horderly : joined.Orderly := after_orderly hs' [.join c]
    refine ⟨hperform ▸ hanswer, hjoined ▸ htime, hjoined ▸ htrace, ?_, ?_⟩
    · intro due finish e hp
      rw [hjoined]
      exact htrace.trans (by simp [hp, lastWords])
    · intro commands'
      have hsteps := after_steps horderly commands'
      rw [hjoined] at hsteps ⊢
      exact hfinal _ hsteps
  · exact hwords (after_steps hs' commands')
  · obtain ⟨hs'', htr, -, hsilent⟩ := words_of_steps hs (after_steps hs commands') hsees hc
    have hnone : trace c (some k) s.history = [] := hlife.trace_of_spawned hp
    intro e he
    rw [htr, hnone, List.append_nil] at he
    obtain ⟨h, hh, rfl⟩ := List.mem_map.mp (List.mem_reverse.mp he)
    exact (hsilent h hh).1
  · intro newer t f older htrace hf
    exact self_cancelled_at_rest h₀ hfresh hstrides hsees htrace hf

/-- A fetch that stalls is abandoned 100 ms after it began, when its loop is cancelled and
joined. -/
theorem stalled_fetch_is_abandoned :
    let sources : List Source := [⟨.ofMillis 1000, .ofMillis 500, [⟨none, 0, false⟩]⟩]
    let s := (create {} sources).after [.start 0 false, .advance 100]
    let joined := (s.after [.cancel 0]).after [.join 0]
    ∃ x l, s.collectors[0]? = some x ∧ x.loops[0]? = some l ∧
      x.joinable = some 0 ∧ x.interval.nanos ≠ 0 ∧
      ((s.after [.cancel 0]).perform (.join 0)).2 = .stopped ∧ joined.time = s.time ∧
      trace 0 (some 0) joined.history =
        ((lastWords x.interval l.phase).map (s.time, ·)).reverse ++ trace 0 (some 0) s.history ∧
      marks 0 joined.history = [(100, .abandoned), (0, .fetch)] := by
  intro sources s joined
  have hsettings : s.collectors[0]?.map (fun x =>
      (x.joinable, x.interval.nanos, x.loops.length)) = some (some 0, 1000000000, 1) := by
    decide +kernel
  have hmarks : marks 0 joined.history = [(100, .abandoned), (0, .fetch)] := by
    decide +kernel
  obtain ⟨x, hx, hfacts⟩ := Option.map_eq_some_iff.mp hsettings
  obtain ⟨hjoin, hrest⟩ := Prod.mk.inj hfacts
  obtain ⟨hinterval, hlength⟩ := Prod.mk.inj hrest
  have hl : x.loops[0]? = some x.loops[0] := List.getElem?_eq_getElem (by omega)
  have hz : x.interval.nanos ≠ 0 := by omega
  obtain ⟨hanswer, htime, htrace, -⟩ := (cancellation_is_prompt_and_final {} sources
    [.start 0 false, .advance 100] 0 0 x _ hx hl).1 hjoin hz
  exact ⟨x, _, hx, hl, hjoin, hz, hanswer, htime, htrace, hmarks⟩

end AccountCensus.Service
