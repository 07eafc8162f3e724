import AccountCensus.Proofs.Strides

/-!
# The life of a loop

Of one loop there is a clock, a phase with a token, and a trace to see (`View`). Whatever goes on
in its service, three things only can change in this view: time passes, not beyond the time at
which the loop wakes; the token is cancelled; the loop takes a turn at the time at which it wakes.
`Step.sees` projects the steps of a service to these changes, and `life_of_steps` says that every
loop comes from its start by them. So a property of one loop, however many others there are and
whatever the commands were, needs to be checked for three changes.
-/

namespace AccountCensus.Service

open Relation

/-- What there is to see of a loop. -/
structure View where
  now : ℕ
  loop : Loop
  /-- Latest entry first. -/
  trace : List (ℕ × Happening)

namespace View

/-- A loop that was just started. -/
def born (now : ℕ) (cancelled : Bool) : View := ⟨now, ⟨.spawned, cancelled⟩, []⟩

/-- A loop after a turn. -/
def turned (v : View) (hs : List Happening) (phase : Phase) (cancels : Bool) : View :=
  ⟨v.now, ⟨phase, v.loop.cancelled || cancels⟩, (hs.map (v.now, ·)).reverse ++ v.trace⟩

end View

/-- The loop itself does nothing: time passes, or the loop is told that its token is cancelled. -/
inductive Idle : View → View → Prop
  | elapse {v : View} {t : ℕ} : v.now ≤ t → (∀ u, v.loop.wakeTime? v.now = some u → t ≤ u) →
      Idle v { v with now := t }
  | told (v : View) (b : Bool) : Idle v { v with loop := v.loop.told b }

section Idle

variable {v v' : View}

theorem Idle.phase (h : Idle v v') : v'.loop.phase = v.loop.phase := by
  cases h <;> rfl

theorem Idle.isLive (h : Idle v v') : v'.loop.isLive = v.loop.isLive := by
  cases h <;> rfl

theorem Idle.trace (h : Idle v v') : v'.trace = v.trace := by
  cases h <;> rfl

/-- A loop that is cancelled stays so, and as long as it lives the clock waits for it. -/
theorem Idle.cancelled (h : Idle v v') (hc : v.loop.cancelled = true) :
    v'.loop.cancelled = true ∧ (v.loop.isLive = true → v'.now = v.now) := by
  cases h with
  | elapse hle hbefore =>
      refine ⟨hc, fun hlive => ?_⟩
      exact le_antisymm (hbefore _ (Loop.wakeTime?_cancelled hlive hc _)) hle
  | told b => exact ⟨by simp [hc], fun _ => rfl⟩

end Idle

/-- What can change in the view of a loop. -/
inductive Change (interval timeout : Duration) : View → View → Prop
  | idle {v v' : View} : Idle v v' → Change interval timeout v v'
  | turn {v : View} {f : Fetch} {hs : List Happening} {phase : Phase} {began : Bool} :
      v.loop.wakeTime? v.now = some v.now →
      Turn interval timeout v.now f v.loop hs phase began →
      Change interval timeout v (v.turned hs phase (began && f.cancels))

/-- What a loop can have come to since it was started. -/
def Life (interval timeout : Duration) (v : View) : Prop :=
  ∃ now cancelled, ReflTransGen (Change interval timeout) (View.born now cancelled) v

/-- What holds at the start of a loop and what every change keeps, holds for life. -/
theorem life_induction {interval timeout : Duration} {P : View → Prop}
    (hborn : ∀ now cancelled, P (View.born now cancelled))
    (hchange : ∀ {v v'}, Change interval timeout v v' → P v → P v') {v : View}
    (h : Life interval timeout v) : P v := by
  obtain ⟨now, cancelled, h⟩ := h
  induction h with
  | refl => exact hborn now cancelled
  | tail _ h ih => exact hchange h ih

theorem Life.trans {interval timeout : Duration} {v v' : View} (h : Life interval timeout v)
    (h' : ReflTransGen (Change interval timeout) v v') : Life interval timeout v' := by
  obtain ⟨now, cancelled, h⟩ := h
  exact ⟨now, cancelled, h.trans h'⟩

/-- Nothing is noted of a loop before it first runs. -/
theorem Life.trace_of_spawned {interval timeout : Duration} {v : View}
    (h : Life interval timeout v) : v.loop.phase = .spawned → v.trace = [] := by
  refine life_induction (P := fun v => v.loop.phase = .spawned → v.trace = []) ?_ ?_ h
  · intro now cancelled _
    rfl
  · intro v v' hchange ih
    cases hchange with
    | idle hidle => cases hidle <;> exact ih
    | turn _ hturn =>
        intro hp
        cases hturn <;> cases hp

/-- The fetch in flight of a loop: it is what was noted last, and if the loop is not cancelled the
clock does not get past its end. -/
structure InFlight (timeout : Duration) (v : View) (finish : ℕ) (e : Ending) : Prop where
  began : ∃ t f old, v.trace = (t, .fetchBegan f) :: old ∧ e = f.ending timeout ∧
    finish = t + e.after ∧ t ≤ v.now
  inTime : v.loop.cancelled = false → v.now ≤ finish

/-- **A loop knows how its fetch will end**, and when. -/
theorem Life.inFlight {interval timeout : Duration} {v : View} (h : Life interval timeout v) :
    ∀ due finish e, v.loop.phase = .fetching due finish e → InFlight timeout v finish e := by
  refine life_induction (P := fun v => ∀ due finish e, v.loop.phase = .fetching due finish e →
    InFlight timeout v finish e) ?_ ?_ h
  · intro now cancelled due finish e hp
    cases hp
  · intro v v' hchange ih
    cases hchange with
    | idle hidle =>
        intro due finish e hp
        cases hidle with
        | elapse hle hbefore =>
            obtain ⟨⟨t, f, old, htrace, he, hfinish, ht⟩, hinTime⟩ := ih due finish e hp
            refine ⟨⟨t, f, old, htrace, he, hfinish, ht.trans hle⟩, fun hc => ?_⟩
            have hmax := hbefore _ (Loop.wakeTime?_fetching hp hc v.now)
            exact hmax.trans (max_le (hinTime hc) le_rfl)
        | told b =>
            obtain ⟨hbegan, hinTime⟩ := ih due finish e hp
            exact ⟨hbegan, fun hc => hinTime (Bool.or_eq_false_iff.mp hc).1⟩
    | @turn f hs phase began _ hturn =>
        intro due finish e hp
        cases hturn with
        | fetch _ _ _ =>
            obtain ⟨-, rfl, rfl⟩ := Phase.fetching.inj hp
            exact ⟨⟨v.now, f, v.trace, rfl, rfl, rfl, le_rfl⟩, fun _ => Nat.le_add_right ..⟩
        | _ => cases hp

/-! ## Loops of a service -/

/-- Loop `k` of collector `c` has these settings and this view. -/
structure Sees (s : Service) (c k : ℕ) (interval timeout : Duration) (v : View) : Prop where
  exists_collector : ∃ x, s.collectors[c]? = some x ∧ x.interval = interval ∧
    x.timeout = timeout ∧ x.loops[k]? = some v.loop
  now : v.now = s.time
  trace : v.trace = trace c (some k) s.history

theorem sees_of_loop {s : Service} {c k : ℕ} {x : Collector} {l : Loop}
    (hx : s.collectors[c]? = some x) (hl : x.loops[k]? = some l) :
    s.Sees c k x.interval x.timeout ⟨s.time, l, trace c (some k) s.history⟩ :=
  ⟨⟨x, hx, rfl, rfl, hl⟩, rfl, rfl⟩

section Sees

variable {s s' : Service} {c k : ℕ} {interval timeout : Duration} {v v' : View}

/-- A loop has one view. -/
theorem Sees.unique (h : s.Sees c k interval timeout v) (h' : s.Sees c k interval timeout v') :
    v = v' := by
  obtain ⟨x, hx, -, -, hl⟩ := h.exists_collector
  obtain ⟨y, hy, -, -, hl'⟩ := h'.exists_collector
  obtain rfl : x = y := Option.some.inj (hx.symm.trans hy)
  have hloop : v.loop = v'.loop := Option.some.inj (hl.symm.trans hl')
  cases v
  cases v'
  obtain rfl := hloop
  obtain rfl := h.now.trans h'.now.symm
  obtain rfl := h.trace.trans h'.trace.symm
  rfl

theorem Sees.exists_wake (hs : s.Orderly) (hv : s.Sees c k interval timeout v) {u : ℕ}
    (hu : v.loop.wakeTime? v.now = some u) : ∃ w, s.next? = some w ∧ w.time ≤ u := by
  obtain ⟨x, hx, -, -, hl⟩ := hv.exists_collector
  have hc : c < s.collectors.length := (List.getElem?_eq_some_iff.mp hx).1
  exact next?_least (hs.turns c hc) hx hl (hv.now ▸ hu)

/-- The view after a change of collector `d`. -/
theorem Sees.modify {d t : ℕ} {f : Collector → Collector} {l : Loop}
    {tr : List (ℕ × Happening)} (hv : s.Sees c k interval timeout v)
    (hcollectors : s'.collectors = s.collectors.modify d f)
    (hf : ∀ x, s.collectors[c]? = some x → x.loops[k]? = some v.loop → c = d →
      (f x).interval = x.interval ∧ (f x).timeout = x.timeout ∧ (f x).loops[k]? = some l)
    (hother : c ≠ d → l = v.loop) (htime : t = s'.time)
    (htrace : tr = Service.trace c (some k) s'.history) :
    s'.Sees c k interval timeout ⟨t, l, tr⟩ := by
  obtain ⟨x, hx, hi, ht, hl⟩ := hv.exists_collector
  refine ⟨?_, htime, htrace⟩
  rw [hcollectors, List.getElem?_modify, hx]
  by_cases hd : c = d
  · obtain ⟨hfi, hft, hfl⟩ := hf x hx hl hd
    refine ⟨f x, by simp [hd], hfi.trans hi, hft.trans ht, hfl⟩
  · exact ⟨x, by simp [Ne.symm hd], hi, ht, hother hd ▸ hl⟩

end Sees

/-! ## Projection -/

/-- What a turn of loop `k` makes of the loops of its collector. -/
theorem Collector.turned_getElem? (x : Collector) (k j : ℕ) (phase : Phase) (began : Bool) :
    ((bif began then x.beginFetch.1 else x).setPhase k phase).loops[j]? =
      x.loops[j]?.map fun l =>
        if j = k then ⟨phase, l.cancelled || (began && x.beginFetch.2.cancels)⟩
        else l.told (began && x.beginFetch.2.cancels) := by
  rw [setPhase_getElem?]
  cases began with
  | false =>
      simp only [cond_false, Bool.false_and]
      cases x.loops[j]? with
      | none => simp
      | some l => by_cases h : j = k <;> simp [h]
  | true =>
      simp only [cond_true, beginFetch_loops, List.getElem?_map, Bool.true_and]
      cases x.loops[j]? with
      | none => simp
      | some l => by_cases h : j = k <;> simp [h, Loop.told]

/-- A loop goes on waiting for its wake time while other things happen before it. -/
theorem Loop.wakeTime?_elapse {now t u : ℕ} {l : Loop} (h : l.wakeTime? now = some u)
    (hnow : now ≤ t) (ht : t ≤ u) :
    l.wakeTime? t = some (if l.cancelled then t else u) := by
  unfold Loop.wakeTime? at h ⊢
  cases hp : l.phase with
  | spawned =>
      rw [hp] at h
      have hu := Option.some.inj h
      obtain rfl : t = u := by omega
      rw [ite_self]
  | waiting due =>
      rw [hp] at h
      have hu := Option.some.inj h
      cases hc : l.cancelled with
      | true => simp
      | false =>
          simp only [hc, Bool.false_eq_true, if_false, Option.some.injEq] at hu ⊢
          omega
  | fetching due finish e =>
      rw [hp] at h
      have hu := Option.some.inj h
      cases hc : l.cancelled with
      | true => simp
      | false =>
          simp only [hc, Bool.false_eq_true, if_false, Option.some.injEq] at hu ⊢
          omega
  | stopped => simp [hp] at h
  | panicked => simp [hp] at h

section Projection

variable {s s' : Service} {c k : ℕ} {interval timeout : Duration} {v : View}

/-- Under an act a loop does nothing. -/
theorem Act.sees (h : Act s s') (hs : s.Orderly) (hv : s.Sees c k interval timeout v) :
    ∃ v', s'.Sees c k interval timeout v' ∧ Idle v v' := by
  have hnow := hv.now
  have htrace := hv.trace
  cases h with
  | @start d x fresh hx hready =>
      refine ⟨_, hv.modify (rouse_collectors ..) (fun y hy hl _ => ⟨rfl, rfl, ?_⟩) (fun _ => rfl)
        (by simpa using hnow) (by simpa using htrace), ?_⟩
      · rw [Collector.start, List.getElem?_append_left (List.getElem?_eq_some_iff.mp hl).1]
        exact hl
      · simpa using Idle.told v false
  | @cancel d x hx =>
      refine ⟨_, hv.modify (l := v.loop.told (decide (c = d))) (rouse_collectors ..)
        (fun y hy hl hd => ⟨rfl, rfl, ?_⟩) (fun hd => by simp [hd])
        (by simpa using hnow) (by simpa using htrace), .told v _⟩
      simp [Collector.cancel_loops, hl, hd]
  | forget d =>
      refine ⟨_, hv.modify (d := d) rfl (fun y hy hl _ => ⟨rfl, rfl, hl⟩) (fun _ => rfl) hnow
        htrace, ?_⟩
      simpa using Idle.told v false
  | @begin d x hx =>
      refine ⟨_, hv.modify (l := v.loop.told (decide (c = d) && x.beginFetch.2.cancels))
        (beginCensus_collectors ..) (fun y hy hl hd => ?_) (fun hd => by simp [hd])
        (by simpa using hnow) ?_, .told v _⟩
      · subst hd
        obtain rfl : x = y := Option.some.inj (hx.symm.trans hy)
        simp [Collector.beginFetch_loops, hl]
      · show v.trace = _
        rw [beginCensus_history, htrace]
        simp [Service.trace]
  | @finish d t x f old driver hx htr htime =>
      obtain ⟨y, hy, hi, ht, hl⟩ := hv.exists_collector
      refine ⟨v, ⟨⟨y, by simpa using hy, hi, ht, hl⟩, by simpa using hnow, ?_⟩, ?_⟩
      · rw [noteAll_history, trace_append, trace_notes_other _ (by simp), List.nil_append, htrace]
      · simpa using Idle.told v false
  | @wait t ht hquiet =>
      refine ⟨{ v with now := t }, ⟨hv.exists_collector, rfl, htrace⟩,
        .elapse (hnow ▸ ht) ?_⟩
      intro u hu
      obtain ⟨w, hw, hle⟩ := hv.exists_wake hs hu
      exact (hquiet w hw).trans hle

/-- **Every step of a service is, for one of its loops, a list of changes.** -/
theorem Step.sees (h : Step s s') (hs : s.Orderly) (hv : s.Sees c k interval timeout v) :
    ∃ v', s'.Sees c k interval timeout v' ∧ ReflTransGen (Change interval timeout) v v' := by
  cases h with
  | act h =>
      obtain ⟨v', hv', hidle⟩ := h.sees hs hv
      exact ⟨v', hv', .single (.idle hidle)⟩
  | @wake w hw =>
      obtain ⟨x, l, hs', phase, began, h⟩ := exists_woken hw
      have hle : v.now ≤ w.time := by
        rw [hv.now]
        exact Loop.le_wakeTime? h.wakeTime
      have hbefore : ∀ u, v.loop.wakeTime? v.now = some u → w.time ≤ u := by
        intro u hu
        obtain ⟨w', hw', hle'⟩ := hv.exists_wake hs hu
        obtain rfl : w = w' := Option.some.inj (hw.symm.trans hw')
        exact hle'
      have helapse : Change interval timeout v { v with now := w.time } :=
        .idle (.elapse hle hbefore)
      -- of the wake of another loop this one notices at most that the token was cancelled
      by_cases hown : w.collector = c ∧ some w.loop = some k
      · obtain ⟨rfl, hk⟩ := hown
        obtain rfl := Option.some.inj hk
        obtain ⟨y, hy, rfl, rfl, hl⟩ := hv.exists_collector
        obtain rfl : x = y := Option.some.inj (h.collector.symm.trans hy)
        obtain rfl : l = v.loop := Option.some.inj (h.loop.symm.trans hl)
        refine ⟨_, hv.modify h.collectors (fun y hy hl _ => ?_) (fun hd => absurd rfl hd)
          h.time.symm ?_, .tail (.single helapse) (.turn ?_ h.turn)⟩
        · obtain rfl : x = y := Option.some.inj (h.collector.symm.trans hy)
          refine ⟨by cases began <;> simp, by cases began <;> simp, ?_⟩
          rw [Collector.turned_getElem?, hl]
          simp
        · rw [h.history, trace_append, trace_notes_self, ← hv.trace]
        · have hwake := Loop.wakeTime?_elapse h.wakeTime (Loop.le_wakeTime? h.wakeTime) le_rfl
          rwa [ite_self] at hwake
      · refine ⟨_, hv.modify
          (l := v.loop.told (decide (c = w.collector) && (began && x.beginFetch.2.cancels)))
          h.collectors (fun y hy hl hd => ?_) (fun hd => by simp [hd]) h.time.symm ?_,
          .tail (.single helapse) (.idle (.told { v with now := w.time } _))⟩
        · subst hd
          obtain rfl : x = y := Option.some.inj (h.collector.symm.trans hy)
          have hk : k ≠ w.loop := fun hk => hown ⟨rfl, by rw [hk]⟩
          refine ⟨by cases began <;> simp, by cases began <;> simp, ?_⟩
          rw [Collector.turned_getElem?, hl]
          simp [hk]
        · rw [h.history, trace_append, trace_notes_other _ hown, List.nil_append, ← hv.trace]

/-- Before a change of collector `d` that starts no loop there was the same loop. -/
theorem Sees.before {d : ℕ} {f : Collector → Collector}
    (hv : s'.Sees c k interval timeout v) (hcollectors : s'.collectors = s.collectors.modify d f)
    (hf : ∀ x, s.collectors[c]? = some x → c = d → (f x).interval = x.interval ∧
      (f x).timeout = x.timeout ∧ (k < (f x).loops.length → k < x.loops.length)) :
    ∃ v, s.Sees c k interval timeout v := by
  obtain ⟨y, hy, hi, ht, hl⟩ := hv.exists_collector
  rw [hcollectors] at hy
  obtain ⟨x, hx, rfl⟩ := getElem?_modify_some hy
  have hk := (List.getElem?_eq_some_iff.mp hl).1
  by_cases hd : c = d
  · rw [if_pos hd] at hi ht hk
    obtain ⟨hfi, hft, hfk⟩ := hf x hx hd
    have hsees := sees_of_loop hx (List.getElem?_eq_getElem (hfk hk))
    rw [← hfi, ← hft, hi, ht] at hsees
    exact ⟨_, hsees⟩
  · rw [if_neg hd] at hi ht hk
    have hsees := sees_of_loop hx (List.getElem?_eq_getElem hk)
    rw [hi, ht] at hsees
    exact ⟨_, hsees⟩

/-- A loop that a step shows was there before, or was just started. -/
theorem Step.born (h : Step s s') (hs : s.Orderly) (hv : s'.Sees c k interval timeout v) :
    (∃ v, s.Sees c k interval timeout v) ∨ ∃ now cancelled, v = View.born now cancelled := by
  cases h with
  | act h =>
      cases h with
      | @start d x fresh hx hready =>
          by_cases hnew : c = d ∧ k = x.loops.length
          · obtain ⟨rfl, rfl⟩ := hnew
            refine .inr ⟨s.time, x.cancelled && !(fresh && x.joinable.isNone), ?_⟩
            obtain ⟨y, hy, -, -, hl⟩ := hv.exists_collector
            have hloop : some v.loop =
                some ⟨.spawned, x.cancelled && !(fresh && x.joinable.isNone)⟩ := by
              rw [rouse_collectors, List.getElem?_modify_eq, hx] at hy
              rw [← hl, ← Option.some.inj hy]
              simp [Collector.start]
            -- nothing was noted yet of a loop that was not there
            have htrace : v.trace = [] := by
              rw [hv.trace, rouse_history, Service.trace, List.filterMap_eq_nil_iff]
              intro r hr
              refine if_neg ?_
              rintro ⟨rfl, hloop⟩
              obtain ⟨z, hz, hlt⟩ := hs.noted r hr _ hloop
              obtain rfl : x = z := Option.some.inj (hx.symm.trans hz)
              exact absurd hlt (lt_irrefl _)
            have hnow : v.now = s.time := by
              rw [hv.now, rouse_time]
            cases v
            obtain rfl := Option.some.inj hloop
            obtain rfl := htrace
            obtain rfl := hnow
            rfl
          · refine .inl (hv.before (rouse_collectors ..) fun y hy hd => ⟨rfl, rfl, fun hk => ?_⟩)
            obtain rfl : x = y := Option.some.inj (hx.symm.trans (hd ▸ hy))
            have hne : k ≠ x.loops.length := fun hk => hnew ⟨hd, hk⟩
            simp only [Collector.start, List.length_append, List.length_cons,
              List.length_nil] at hk
            omega
      | cancel hx =>
          exact .inl (hv.before (rouse_collectors ..) fun y hy _ =>
            ⟨rfl, rfl, by simp [Collector.cancel_loops]⟩)
      | forget d => exact .inl (hv.before (d := d) rfl fun y hy _ => ⟨rfl, rfl, fun hk => hk⟩)
      | @begin d x hx =>
          refine .inl (hv.before (beginCensus_collectors ..) fun y hy hd => ?_)
          obtain rfl : x = y := Option.some.inj (hx.symm.trans (hd ▸ hy))
          simp [Collector.beginFetch_loops]
      | finish driver hx htr htime =>
          obtain ⟨y, hy, rfl, rfl, hl⟩ := hv.exists_collector
          rw [noteAll_collectors] at hy
          exact .inl ⟨_, sees_of_loop hy hl⟩
      | wait ht hquiet =>
          obtain ⟨y, hy, rfl, rfl, hl⟩ := hv.exists_collector
          exact .inl ⟨_, sees_of_loop hy hl⟩
  | @wake w hw =>
      obtain ⟨x, l, hs', phase, began, h⟩ := exists_woken hw
      refine .inl (hv.before h.collectors fun y hy hd => ?_)
      obtain rfl : x = y := Option.some.inj (h.collector.symm.trans (hd ▸ hy))
      cases began <;> simp [Collector.setPhase, Collector.beginFetch_loops]

end Projection

/-! ## Lives -/

section Lives

variable {s₀ s s' : Service} {c k : ℕ} {interval timeout : Duration} {v : View}

/-- What becomes of a loop in any continuation. -/
theorem sees_of_steps (h : ReflTransGen Step s s') (hs : s.Orderly)
    (hv : s.Sees c k interval timeout v) :
    ∃ v', s'.Sees c k interval timeout v' ∧ ReflTransGen (Change interval timeout) v v' := by
  induction h with
  | refl => exact ⟨v, hv, .refl⟩
  | tail h hstep ih =>
      obtain ⟨v', hv', hchanges⟩ := ih
      obtain ⟨v'', hv'', hchanges'⟩ := hstep.sees (orderly_of_steps h hs) hv'
      exact ⟨v'', hv'', hchanges.trans hchanges'⟩

/-- There are no loops yet. -/
def Fresh (s : Service) : Prop := ∀ x ∈ s.collectors, x.loops = []

theorem Fresh.not_sees (h : s.Fresh) : ¬ s.Sees c k interval timeout v := by
  intro hv
  obtain ⟨x, hx, -, -, hl⟩ := hv.exists_collector
  rw [h x (List.mem_of_getElem? hx)] at hl
  cases hl

theorem create_fresh (foreign : Gauge.Registry) (sources : List Source) :
    (create foreign sources).Fresh := by
  intro x hx
  obtain ⟨source, -, rfl⟩ := List.mem_map.mp hx
  rfl

variable (h₀ : s₀.Orderly) (hfresh : s₀.Fresh)
include h₀ hfresh

/-- **Every loop has a life.** -/
theorem life_of_steps (h : ReflTransGen Step s₀ s) (hv : s.Sees c k interval timeout v) :
    Life interval timeout v := by
  induction h generalizing v with
  | refl => exact absurd hv hfresh.not_sees
  | tail h hstep ih =>
      have hs := orderly_of_steps h h₀
      rcases hstep.born hs hv with ⟨v', hv'⟩ | ⟨now, cancelled, rfl⟩
      · obtain ⟨v'', hv'', hchanges⟩ := hstep.sees hs hv'
        rw [hv.unique hv'']
        exact (ih hv').trans hchanges
      · exact ⟨now, cancelled, .refl⟩

/-- **At rest**: what holds of every loop that is not due now, and what idling keeps, holds each
time the service has come to rest. -/
theorem rest_induction {P : View → Prop}
    (hborn : ∀ now cancelled, P (View.born now cancelled))
    (hidle : ∀ {v v'}, Idle v v' → P v → P v')
    (hquiet : ∀ {v}, Life interval timeout v →
      (∀ t, v.loop.wakeTime? v.now = some t → v.now < t) → P v)
    (h : ReflTransGen Stride s₀ s) (hv : s.Sees c k interval timeout v) : P v := by
  induction h generalizing v with
  | refl => exact absurd hv hfresh.not_sees
  | @tail s s' h hstride ih =>
      have hs := orderly_of_steps (steps_of_strides h) h₀
      cases hstride with
      | act hact =>
          rcases (Step.act hact).born hs hv with ⟨v', hv'⟩ | ⟨now, cancelled, rfl⟩
          · obtain ⟨v'', hv'', hv''idle⟩ := hact.sees hs hv'
            rw [hv.unique hv'']
            exact hidle hv''idle (ih hv')
          · exact hborn now cancelled
      | settle deadline =>
          -- if the clock is before the deadline, then no loop is due now
          rcases s.settle_eq_or_time_lt deadline with heq | hlt
          · rw [heq] at hv
            exact ih hv
          · have hsteps := (steps_of_strides h).trans (s.settle_steps deadline)
            refine hquiet (life_of_steps h₀ hfresh hsteps hv) fun t ht => ?_
            obtain ⟨w, hw, hle⟩ := hv.exists_wake (orderly_of_steps hsteps h₀) ht
            rw [hv.now]
            exact hlt.trans_le ((settle_quiet hs deadline w hw).trans hle)

end Lives

end AccountCensus.Service
