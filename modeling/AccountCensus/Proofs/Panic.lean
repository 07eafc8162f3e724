import AccountCensus.Proofs.Foreground
import AccountCensus.Proofs.Legality

/-!
# Loops that panic

An interval of zero makes a loop panic when it first runs. `phase_of_zero` says that such a loop
has no other future, `wake_panics` what the panic changes: the phase of that one loop, and one
entry of the history. Nothing in the service keeps an interval from being zero; settings that are
accepted do (`nonzero_of_parse`), so that no loop of a collector that is made from such settings
ever panics.
-/

namespace AccountCensus

/-! ## Accepted settings -/

namespace Settings

/-- **Accepted settings have neither an interval nor a time-out of zero.** -/
theorem nonzero_of_parse {existing : String → Bool} {text : String} {s : Settings}
    (h : parse existing text = .ok s) : s.stats.interval.nanos ≠ 0 ∧ s.stats.timeout.nanos ≠ 0 := by
  obtain ⟨es, -, -, hlegal⟩ := parse_eq_ok.mp h
  have hinterval := hlegal.interval
  have htimeout := hlegal.timeout
  constructor
  · unfold Stats.interval Duration.ofSeconds
    dsimp only
    omega
  · unfold Stats.timeout Duration.ofSeconds
    dsimp only
    omega

end Settings

namespace Service

open Relation

/-- The collector of a source has the interval and the time-out of settings that were accepted. -/
def Source.IsConfigured (source : Source) : Prop :=
  ∃ existing text s, Settings.parse existing text = .ok s ∧
    source.interval = s.stats.interval ∧ source.timeout = s.stats.timeout

/-! ## An interval of zero -/

/-- A loop with an interval of zero has not run yet, or has panicked. -/
theorem phase_of_zero {interval timeout : Duration} {v : View} (h : Life interval timeout v)
    (hz : interval.nanos = 0) : v.loop.phase = .spawned ∨ v.loop.phase = .panicked := by
  refine life_induction
    (P := fun v => v.loop.phase = .spawned ∨ v.loop.phase = .panicked) ?_ ?_ h
  · intro now cancelled
    exact .inl rfl
  · intro v v' hchange ih
    cases hchange with
    | idle hidle =>
        rw [hidle.phase]
        exact ih
    | turn hwake hturn =>
        cases hturn with
        | panic _ _ => exact .inr rfl
        | start _ hnz => exact absurd hz hnz
        | stop hp _ => rw [hp] at ih; simp at ih
        | serve hp _ _ => rw [hp] at ih; simp at ih
        | fetch hp _ _ => rw [hp] at ih; simp at ih
        | abandon hp _ => rw [hp] at ih; simp at ih
        | finish hp _ => rw [hp] at ih; simp at ih

/-- **A loop has panicked exactly if its interval is zero and it has run.** -/
theorem panicked_iff {interval timeout : Duration} {v : View} (h : Life interval timeout v)
    (hfits : v.loop.phase.Fits interval) :
    v.loop.phase = .panicked ↔ interval.nanos = 0 ∧ v.trace ≠ [] := by
  constructor
  · intro hp
    have hcourse := course_of_life h
    rw [hp] at hfits hcourse
    refine ⟨hfits, fun hnil => ?_⟩
    rw [hnil] at hcourse
    cases hcourse
  · rintro ⟨hz, hne⟩
    exact (phase_of_zero h hz).resolve_left fun hp => hne (h.trace_of_spawned hp)

/-- Nothing is noted of a loop but that it started, if it panicked. -/
theorem trace_of_panicked {interval timeout : Duration} {v : View} (h : Life interval timeout v)
    (hp : v.loop.phase = .panicked) : ∃ t, v.trace = [(t, .loopStarted interval)] := by
  have hcourse := course_of_life h
  rw [hp] at hcourse
  generalize v.trace = tr at hcourse
  cases hcourse
  exact ⟨_, rfl⟩

/-- A loop that has panicked is never woken again. -/
theorem still_of_panicked {interval timeout : Duration} {v v' : View}
    (h : ReflTransGen (Change interval timeout) v v') (hp : v.loop.phase = .panicked) :
    v'.loop.phase = .panicked ∧ v'.trace = v.trace := by
  induction h with
  | refl => exact ⟨hp, rfl⟩
  | tail _ hchange ih =>
      obtain ⟨hphase, htrace⟩ := ih
      cases hchange with
      | idle hidle => exact ⟨hidle.phase.trans hphase, hidle.trace.trans htrace⟩
      | turn hwake _ =>
          rw [Loop.wakeTime?, hphase] at hwake
          cases hwake

section Panic

variable {s : Service} {c k : ℕ} {x : Collector} {l : Loop}

/-- **What a panic changes**: the phase of the loop. It is noted that the loop started; no script,
no token, no gauge and no other collector is touched. -/
theorem wake_panics {w : Wake} (hx : s.collectors[w.collector]? = some x)
    (hl : x.loops[w.loop]? = some l) (hp : l.phase = .spawned) (hz : x.interval.nanos = 0) :
    s.wake w =
      { s with
        time := w.time
        collectors := s.collectors.modify w.collector (·.setPhase w.loop .panicked)
        history := ⟨w.time, w.collector, some w.loop, .loopStarted x.interval⟩ :: s.history } := by
  have hwake : x.wake w.loop w.time =
      (x.setPhase w.loop .panicked, [.loopStarted x.interval]) := by
    simp [Collector.wake, hl, hp, hz]
  have hloop : (x.setPhase w.loop .panicked).loops[w.loop]? =
      some { l with phase := .panicked } := by
    simp [Collector.setPhase_getElem?, hl]
  have hnext : s.collectors.set w.collector (x.setPhase w.loop .panicked) =
      s.collectors.modify w.collector (·.setPhase w.loop .panicked) := by
    rw [List.modify_eq_set_getElem?, hx]
    rfl
  simp only [wake, hx, hwake, hloop]
  rw [noteAll_eq, hnext]
  simp [Loop.isInterrupted, Happening.publish]

/-- After a millisecond every loop has run. -/
theorem settle_runs (hs : s.Orderly) (hx : s.collectors[c]? = some x)
    (hl : x.loops[k]? = some l) :
    ∃ v, (s.settle (s.time + 1)).Sees c k x.interval x.timeout v ∧ v.loop.phase ≠ .spawned := by
  have hsteps := s.settle_steps (s.time + 1)
  obtain ⟨v, hv, -⟩ := sees_of_steps hsteps hs (sees_of_loop hx hl)
  refine ⟨v, hv, fun hp => ?_⟩
  -- a loop that has not run would wake in this millisecond
  have hdue : v.loop.wakeTime? v.now = some v.now := by
    simp [Loop.wakeTime?, hp]
  obtain ⟨w, hw, hle⟩ := hv.exists_wake (orderly_of_steps hsteps hs) hdue
  have hquiet := settle_quiet hs (s.time + 1) w hw
  have hnow := hv.now
  rcases s.settle_eq_or_time_lt (s.time + 1) with heq | hlt
  · rw [heq] at hnow
    omega
  · omega

/-- Joining tells the end of the loop: at once, or after a millisecond. -/
theorem join_of_ended {answer : Answer} (hx : s.collectors[c]? = some x)
    (hjoin : x.joinable = some k) (hl : x.loops[k]? = some l)
    (hend : s.endOf c = some answer ∨
      s.endOf c = none ∧ (s.settle (s.time + 1)).endOf c = some answer) :
    (s.join c).2 = answer := by
  have hsome : (s.collectors[c]?.bind Collector.joined?).isNone = false := by
    simp [hx, Collector.joined?, hjoin, hl]
  rcases hend with hend | ⟨hnone, hend⟩
  · simp [join, hsome, hend]
  · simp [join, hsome, hnone, hend]

/-- Where no loop has panicked, the end of a loop is that it stopped. -/
theorem endOf_of_none_panicked (hs : ∀ x ∈ s.collectors, ∀ l ∈ x.loops, l.phase ≠ .panicked)
    {answer : Answer} (h : s.endOf c = some answer) : answer = .stopped := by
  obtain ⟨l, hl, hend⟩ := Option.bind_eq_some_iff.mp h
  obtain ⟨x, hx, hjoined⟩ := Option.bind_eq_some_iff.mp hl
  obtain ⟨k, -, hk⟩ := Option.bind_eq_some_iff.mp hjoined
  have hphase := hs x (List.mem_of_getElem? hx) l (List.mem_of_getElem? hk)
  unfold Loop.end? at hend
  split at hend
  · exact (Option.some.inj hend).symm
  · exact absurd (by assumption) hphase
  · cases hend

end Panic

/-! ## Runs -/

section Runs

variable {foreign : Gauge.Registry} {sources : List Source} {s : Service}
  (h : ReflTransGen Step (create foreign sources) s)
include h

theorem life_of_reached {c k : ℕ} {interval timeout : Duration} {v : View}
    (hv : s.Sees c k interval timeout v) : Life interval timeout v :=
  life_of_steps (create_orderly foreign sources) (create_fresh foreign sources) h hv

theorem orderly_of_reached : s.Orderly := orderly_of_steps h (create_orderly foreign sources)

/-- **Loops that tick never panic.** -/
theorem none_panicked (hsources : ∀ source ∈ sources, source.interval.nanos ≠ 0) :
    ∀ x ∈ s.collectors, ∀ l ∈ x.loops, l.phase ≠ .panicked := by
  intro x hx l hl hp
  obtain ⟨c, hc⟩ := List.getElem?_of_mem hx
  obtain ⟨source, hsource, hinterval, -⟩ := settings_of_steps h hc
  have hfits := ((orderly_of_reached h).valid c x hc).fits l hl
  rw [hp, hinterval] at hfits
  exact hsources source (List.mem_of_getElem? hsource) hfits

/-- **When a loop that does not tick is woken it panics**, and nothing else changes. -/
theorem wake_of_zero {w : Wake} {x : Collector} {l : Loop} (hw : s.next? = some w)
    (hx : s.collectors[w.collector]? = some x) (hl : x.loops[w.loop]? = some l)
    (hz : x.interval.nanos = 0) : s.wake w =
      { s with
        time := w.time
        collectors := s.collectors.modify w.collector (·.setPhase w.loop .panicked)
        history := ⟨w.time, w.collector, some w.loop, .loopStarted x.interval⟩ :: s.history } := by
  obtain ⟨x', l', hx', hl', hwake⟩ := next?_sound hw
  obtain rfl : x = x' := Option.some.inj (hx.symm.trans hx')
  obtain rfl : l = l' := Option.some.inj (hl.symm.trans hl')
  have hlive := Loop.isLive_of_wakeTime? hwake
  have hphase := phase_of_zero (life_of_reached h (sees_of_loop hx hl)) hz
  refine wake_panics hx hl (hphase.resolve_right fun hp => ?_) hz
  rw [Loop.isLive, show l.phase = .panicked from hp] at hlive
  cases hlive

/-- **Loops that do not tick are joined as panicked.** -/
theorem join_zero {c k : ℕ} {x : Collector} {l : Loop} (hx : s.collectors[c]? = some x)
    (hl : x.loops[k]? = some l) (hjoin : x.joinable = some k) (hz : x.interval.nanos = 0) :
    (s.join c).2 = .panicked := by
  have hs := orderly_of_reached h
  have hphase := phase_of_zero (life_of_reached h (sees_of_loop hx hl)) hz
  refine join_of_ended hx hjoin hl ?_
  rw [endOf_eq hx hjoin hl, Loop.end?]
  rcases hphase with hp | hp
  · refine .inr ⟨by rw [show l.phase = .spawned from hp], ?_⟩
    obtain ⟨v, hv, hrun⟩ := settle_runs hs hx hl
    have hpanicked := (phase_of_zero
      (life_of_reached (h.trans (s.settle_steps (s.time + 1))) hv) hz).resolve_left hrun
    obtain ⟨y, hy, -, hyj⟩ := settle_collector (s.time + 1) hx
    obtain ⟨z, hz, -, -, hloop⟩ := hv.exists_collector
    obtain rfl : y = z := Option.some.inj (hy.symm.trans hz)
    rw [endOf_eq hy (hyj.trans hjoin) hloop, Loop.end?, hpanicked]
  · exact .inl (by rw [show l.phase = .panicked from hp])

end Runs

/-- What `join` can answer where no loop panics. -/
theorem join_of_none_panicked {s : Service} (c : ℕ)
    (hs : ∀ s', ReflTransGen Step s s' →
      ∀ x ∈ s'.collectors, ∀ l ∈ x.loops, l.phase ≠ .panicked) :
    (s.join c).2 = .stopped ∨ (s.join c).2 = .running ∨ (s.join c).2 = .notStarted := by
  unfold join
  split
  · exact .inr (.inr rfl)
  · split
    · rename_i hend
      exact .inl (endOf_of_none_panicked (hs s .refl) hend)
    · dsimp only
      split
      · rename_i hend
        exact .inl (endOf_of_none_panicked (hs _ (s.settle_steps _)) hend)
      · exact .inr (.inl rfl)

/-- **Accepted settings never crash a loop.** They have neither an interval nor a time-out of zero,
so at no moment of a service whose collectors are made from accepted settings has a loop panicked,
and no `join` tells of one.

Whatever the intervals are, a loop has panicked exactly if its interval is zero and it has run.
When it is its turn to run it panics exactly if its interval is zero, and then only its own phase
changes, and its history by the entry that it started. Nothing is ever noted of it after that. -/
theorem accepted_settings_never_panic (foreign : Gauge.Registry) (sources : List Source) :
    (∀ existing text settings, Settings.parse existing text = .ok settings →
      settings.stats.interval.nanos ≠ 0 ∧ settings.stats.timeout.nanos ≠ 0) ∧
    ((∀ source ∈ sources, source.IsConfigured) →
      (∀ s, ReflTransGen Step (create foreign sources) s →
        ∀ x ∈ s.collectors, ∀ l ∈ x.loops, l.phase ≠ .panicked) ∧
      ∀ commands c, let s := (create foreign sources).after commands
        s.has c = true → (s.perform (.join c)).2 = .stopped ∨
          (s.perform (.join c)).2 = .running ∨ (s.perform (.join c)).2 = .notStarted) ∧
    ∀ s, ReflTransGen Step (create foreign sources) s →
      ∀ (c k : ℕ) (x : Collector) (l : Loop),
        s.collectors[c]? = some x → x.loops[k]? = some l →
      (l.phase = .panicked ↔ x.interval.nanos = 0 ∧ trace c (some k) s.history ≠ []) ∧
      (∀ w, s.next? = some w → w.collector = c → w.loop = k →
        ((∃ y l', (s.wake w).collectors[c]? = some y ∧ y.loops[k]? = some l' ∧
          l'.phase = .panicked) ↔ x.interval.nanos = 0) ∧
        (x.interval.nanos = 0 → s.wake w =
          { s with
            time := w.time
            collectors := s.collectors.modify c (·.setPhase k .panicked)
            history := ⟨w.time, c, some k, .loopStarted x.interval⟩ :: s.history })) ∧
      (l.phase = .panicked → ∃ t, ∀ s', ReflTransGen Step s s' →
        trace c (some k) s'.history = [(t, .loopStarted x.interval)]) ∧
      (x.interval.nanos = 0 → x.joinable = some k → (s.perform (.join c)).2 = .panicked) := by
  refine ⟨fun existing text settings => Settings.nonzero_of_parse, fun hsources => ?_, ?_⟩
  · have hnonzero : ∀ source ∈ sources, source.interval.nanos ≠ 0 := by
      intro source hsource
      obtain ⟨existing, text, settings, hparse, hinterval, -⟩ := hsources source hsource
      rw [hinterval]
      exact (Settings.nonzero_of_parse hparse).1
    refine ⟨fun s h => none_panicked h hnonzero, ?_⟩
    intro commands c s hhas
    have hsteps : ReflTransGen Step (create foreign sources) s :=
      after_steps (create_orderly foreign sources) commands
    rw [perform_of_has rfl hhas]
    exact join_of_none_panicked c fun s' h' => none_panicked (hsteps.trans h') hnonzero
  · intro s h c k x l hx hl
    have hs := orderly_of_reached h
    have hsees := sees_of_loop hx hl
    have hlife := life_of_reached h hsees
    have hfits := (hs.valid c x hx).fits l (List.mem_of_getElem? hl)
    refine ⟨panicked_iff hlife hfits, ?_, ?_, ?_⟩
    · rintro w hw rfl rfl
      refine ⟨⟨?_, fun hz => ?_⟩, wake_of_zero h hw hx hl⟩
      · rintro ⟨y, l', hy, hl', hp⟩
        have hwoken := h.tail (.wake hw)
        have hfits' := ((orderly_of_reached hwoken).valid _ y hy).fits l' (List.mem_of_getElem? hl')
        obtain ⟨source, hsource, hinterval, -⟩ := settings_of_steps h hx
        obtain ⟨source', hsource', hinterval', -⟩ := settings_of_steps hwoken hy
        obtain rfl : source = source' := Option.some.inj (hsource.symm.trans hsource')
        rw [hp, hinterval', ← hinterval] at hfits'
        exact hfits'
      · refine ⟨x.setPhase w.loop .panicked, { l with phase := .panicked }, ?_, ?_, rfl⟩
        · rw [wake_of_zero h hw hx hl hz]
          simp [hx]
        · simp [Collector.setPhase_getElem?, hl]
    · intro hp
      obtain ⟨t, ht⟩ := trace_of_panicked hlife hp
      refine ⟨t, fun s' hsteps => ?_⟩
      obtain ⟨v, hv, hchanges⟩ := sees_of_steps hsteps hs hsees
      rw [← hv.trace, (still_of_panicked hchanges hp).2, ← ht]
    · intro hz hjoin
      have hhas : s.has c = true := by
        have hready := hs.ready c x hx (List.ne_nil_of_mem (List.mem_of_getElem? hl))
        have hlt := (List.getElem?_eq_some_iff.mp hx).1
        simpa [has, hready] using hlt
      rw [perform_of_has rfl hhas]
      exact join_zero h hx hl hjoin hz

/-- A loop whose cadence was written as an array, with the interval in hexadecimal, can be joined
while its fetch stalls. One that was given an interval of zero panics beside it. -/
theorem configured_loop_beside_zero_interval :
    let text := "stats = [0x1E, 5]"
    let settings : Settings := { stats := { collectionInterval := 30, fetchTimeout := 5 } }
    let ticking : Source :=
      ⟨settings.stats.interval, settings.stats.timeout, [⟨none, 0, false⟩]⟩
    let still : Source := ⟨⟨0⟩, .ofMillis 100, []⟩
    let s := (create {} [ticking]).after [.start 0 false, .advance 100]
    let s' := (create {} [ticking, still]).after [.start 0 false, .start 1 false]
    Settings.parse (fun _ => false) text = .ok settings ∧
      settings.stats.interval.nanos ≠ 0 ∧ settings.stats.timeout.nanos ≠ 0 ∧
      ticking.IsConfigured ∧ s.has 0 = true ∧
      ((s.perform (.join 0)).2 = .stopped ∨ (s.perform (.join 0)).2 = .running ∨
        (s.perform (.join 0)).2 = .notStarted) ∧
      ∃ x l, s'.collectors[1]? = some x ∧ x.loops[0]? = some l ∧ x.interval.nanos = 0 ∧
        x.joinable = some 0 ∧ (s'.perform (.join 1)).2 = .panicked ∧
        marks 0 (s'.after [.join 1]).history = [(0, .fetch)] := by
  intro text settings ticking still s s'
  have hparse : Settings.parse (fun _ => false) text = .ok settings := by
    have hsome : (Settings.parse (fun _ => false) text).toOption = some settings := by
      decide +kernel
    cases h : Settings.parse (fun _ => false) text with
    | error e =>
        rw [h] at hsome
        cases hsome
    | ok settings' =>
        rw [h] at hsome
        rw [Option.some.inj hsome]
  have hconfigured : ticking.IsConfigured := ⟨_, _, _, hparse, rfl, rfl⟩
  have hhas : s.has 0 = true := by
    decide +kernel
  have hfacts : s'.collectors[1]?.map (fun x =>
      (x.joinable, x.interval.nanos, x.loops.length)) = some (some 0, 0, 1) := by
    decide +kernel
  have hmarks : marks 0 (s'.after [.join 1]).history = [(0, .fetch)] := by
    decide +kernel
  obtain ⟨hnonzero, hjoins, -⟩ := accepted_settings_never_panic {} [ticking]
  obtain ⟨hinterval, htimeout⟩ := hnonzero _ _ _ hparse
  have hjoin := (hjoins (by simpa using hconfigured)).2 [.start 0 false, .advance 100] 0 hhas
  obtain ⟨x, hx, hfacts⟩ := Option.map_eq_some_iff.mp hfacts
  obtain ⟨hjoinable, hrest⟩ := Prod.mk.inj hfacts
  obtain ⟨hz, hlength⟩ := Prod.mk.inj hrest
  have hl : x.loops[0]? = some x.loops[0] := List.getElem?_eq_getElem (by omega)
  have hsteps : ReflTransGen Step (create {} [ticking, still]) s' :=
    after_steps (create_orderly {} [ticking, still]) [.start 0 false, .start 1 false]
  obtain ⟨-, -, -, hpanics⟩ :=
    (accepted_settings_never_panic {} [ticking, still]).2.2 s' hsteps 1 0 x _ hx hl
  exact ⟨hparse, hinterval, htimeout, hconfigured, hhas, hjoin, x, _, hx, hl, hz, hjoinable,
    hpanics hz hjoinable, hmarks⟩

end Service

end AccountCensus
