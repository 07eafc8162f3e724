import AccountCensus.Proofs.Life

/-!
# A collector alone

While a service settles, its collectors wake in turn. What each of them does in this depends on
nothing but itself: `Runs` lets a collector serve its own wakes up to a deadline, with no other
collector in sight, and `Settles.runs` says that this is what happens to it in the service. So its
marks and its loops are a function of the collector, of the time and of the deadline.

A run can be cut at any time in between (`Runs.trans`), and it may be looked at from a later time
as long as the collector does not wake before (`Runs.elapse`).
-/

namespace AccountCensus.Service

/-! ## Wake times -/

theorem Loop.wakeTime?_eq_none {now : ℕ} {l : Loop} :
    l.wakeTime? now = none ↔ l.isLive = false := by
  unfold wakeTime? isLive
  cases l.phase <;> simp

/-- A loop that does not wake before `t` has the same wake time at `t`. -/
theorem Loop.wakeTime?_of_le {now t : ℕ} {l : Loop} (hnow : now ≤ t)
    (ht : ∀ u, l.wakeTime? now = some u → t ≤ u) : l.wakeTime? t = l.wakeTime? now := by
  cases hu : l.wakeTime? now with
  | none => exact wakeTime?_eq_none.mpr (wakeTime?_eq_none.mp hu)
  | some u =>
      have hle := ht u hu
      rw [wakeTime?_elapse hu hnow hle]
      by_cases hc : l.cancelled = true
      · have hwake := wakeTime?_cancelled (isLive_of_wakeTime? hu) hc now
        obtain rfl : now = u := Option.some.inj (hwake.symm.trans hu)
        rw [if_pos hc, le_antisymm hle hnow]
      · rw [if_neg hc]

namespace Collector

theorem le_next? {x : Collector} {now t k : ℕ} (h : x.next? now = some (t, k)) : now ≤ t := by
  obtain ⟨l, -, ht⟩ := next?_sound h
  exact Loop.le_wakeTime? ht

/-- A collector that does not wake before `t` has the same next wake at `t`. -/
theorem next?_of_le {x : Collector} {now t : ℕ} (hnow : now ≤ t)
    (ht : ∀ u k, x.next? now = some (u, k) → t ≤ u) : x.next? t = x.next? now := by
  have hloops : ∀ l ∈ x.loops, l.wakeTime? t = l.wakeTime? now := by
    intro l hl
    refine Loop.wakeTime?_of_le hnow fun u hu => ?_
    obtain ⟨j, hj⟩ := List.getElem?_of_mem hl
    obtain ⟨u', k, hnext, hle⟩ := next?_least hj hu
    exact (ht u' k hnext).trans hle
  have hamong : ∀ (ls : List Loop) (k : ℕ), (∀ l ∈ ls, l.wakeTime? t = l.wakeTime? now) →
      nextAmong t k ls = nextAmong now k ls := by
    intro ls
    induction ls with
    | nil => exact fun _ _ => rfl
    | cons l ls ih =>
        intro k h
        rw [nextAmong, nextAmong, h l List.mem_cons_self,
          ih _ fun l' hl' => h l' (List.mem_cons_of_mem _ hl')]
  exact hamong x.loops 0 hloops

end Collector

/-! ## Marks -/

/-- The marks of some happenings at one time, latest first. -/
def marksAt (t : ℕ) (hs : List Happening) : List (ℕ × Mark) :=
  ((hs.filterMap Happening.mark?).map (t, ·)).reverse

theorem marks_append (c : ℕ) (rs rs' : List Record) :
    marks c (rs ++ rs') = marks c rs ++ marks c rs' :=
  List.filterMap_append

/-- What is noted at one time marks its own collector only. -/
theorem marks_notes (c t d : ℕ) (loop : Option ℕ) (hs : List Happening) (rs : List Record) :
    marks c ((hs.map (⟨t, d, loop, ·⟩)).reverse ++ rs) =
      (if d = c then marksAt t hs else []) ++ marks c rs := by
  rw [marks_append]
  congr 1
  unfold marks marksAt
  rw [List.filterMap_reverse, List.filterMap_map]
  by_cases hd : d = c
  · rw [if_pos hd, List.map_filterMap]
    congr 1
    simp only [Function.comp_def, if_pos hd]
  · rw [if_neg hd, List.reverse_eq_nil_iff, List.filterMap_eq_nil_iff]
    intro h _
    exact if_neg hd

/-! ## Runs -/

/-- A collector serves its own wakes before the deadline, one after the other. The marks that it
leaves stand latest first. -/
inductive Runs (deadline : ℕ) : ℕ → Collector → List (ℕ × Mark) → Collector → Prop
  | rest {now : ℕ} {x : Collector} : (∀ t k, x.next? now = some (t, k) → deadline ≤ t) →
      Runs deadline now x [] x
  | wake {now t k : ℕ} {x y : Collector} {ms : List (ℕ × Mark)} :
      x.next? now = some (t, k) → t < deadline → Runs deadline t (x.wake k t).1 ms y →
      Runs deadline now x (ms ++ marksAt t (x.wake k t).2) y

section Runs

variable {deadline now : ℕ} {x y : Collector} {ms : List (ℕ × Mark)}

/-- Nothing happens in no time. -/
theorem Runs.at_once (now : ℕ) (x : Collector) : Runs now now x [] x :=
  .rest fun _ _ h => Collector.le_next? h

theorem Runs.eq_of_at_once (h : Runs now now x ms y) : ms = [] ∧ y = x := by
  cases h with
  | rest _ => exact ⟨rfl, rfl⟩
  | wake hnext hlt _ => exact absurd (Collector.le_next? hnext) (not_le.mpr hlt)

theorem Runs.elapse {t : ℕ} (hnow : now ≤ t) (ht : ∀ u k, x.next? now = some (u, k) → t ≤ u)
    (h : Runs deadline t x ms y) : Runs deadline now x ms y := by
  have hnext := Collector.next?_of_le hnow ht
  cases h with
  | rest hrest => exact .rest (hnext ▸ hrest)
  | wake hwake hlt hruns => exact .wake (hnext ▸ hwake) hlt hruns

/-- **A run can be cut in two.** -/
theorem Runs.trans {deadline' : ℕ} {ms' : List (ℕ × Mark)} {z : Collector}
    (h : Runs deadline now x ms y) (h' : Runs deadline' deadline y ms' z) (hnow : now ≤ deadline)
    (hle : deadline ≤ deadline') : Runs deadline' now x (ms' ++ ms) z := by
  induction h with
  | rest hrest =>
      rw [List.append_nil]
      exact h'.elapse hnow hrest
  | wake hnext hlt _ ih =>
      rw [← List.append_assoc]
      exact .wake hnext (hlt.trans_le hle) (ih h' hlt.le)

end Runs

/-! ## Within a service -/

section Project

variable {s s' : Service} {c : ℕ} {x : Collector}

/-- The next wake of a service is the next wake of its collector. -/
theorem next?_collector {w : Wake} (h : s.next? = some w) :
    ∃ x, s.collectors[w.collector]? = some x ∧ x.next? s.time = some (w.time, w.loop) := by
  obtain ⟨⟨t, k⟩, hbind, hw⟩ := Option.map_eq_some_iff.mp (nextAmong_sound h)
  obtain ⟨x, hx, hnext⟩ := Option.bind_eq_some_iff.mp hbind
  rw [← hw]
  exact ⟨x, hw ▸ hx, hnext⟩

/-- No collector wakes before the service does. -/
theorem next?_le_collector (hs : s.Orderly) (hx : s.collectors[c]? = some x) {t k : ℕ}
    (h : x.next? s.time = some (t, k)) : ∃ w, s.next? = some w ∧ w.time ≤ t := by
  have hof : s.nextOf c = some ⟨t, c, k⟩ := by
    rw [nextOf, hx, Option.bind_some, h]
    rfl
  exact nextAmong_least hof (hs.turns c (List.getElem?_eq_some_iff.mp hx).1)

/-- **In a service a collector does what it does alone.** -/
theorem Settles.runs {deadline : ℕ} (h : Settles deadline s s') (hs : s.Orderly)
    (hx : s.collectors[c]? = some x) :
    ∃ ms y, Runs deadline s.time x ms y ∧ s'.collectors[c]? = some y ∧
      marks c s'.history = ms ++ marks c s.history := by
  induction h generalizing x with
  | quiet hquiet =>
      refine ⟨[], x, .rest fun t k hnext => ?_, hx, rfl⟩
      obtain ⟨w, hw, hle⟩ := next?_le_collector hs hx hnext
      exact (hquiet w hw).trans hle
  | @wake s s' w hw hlt _ ih =>
      obtain ⟨z, hz, hnext⟩ := next?_collector hw
      have heq := wake_eq hz
      have htime : (s.wake w).time = w.time := by rw [heq]
      have hcollectors : (s.wake w).collectors =
          s.collectors.set w.collector (z.wake w.loop w.time).1 := by rw [heq]
      have hmarks : marks c (s.wake w).history =
          (if w.collector = c then marksAt w.time (z.wake w.loop w.time).2 else []) ++
            marks c s.history := by
        rw [heq]
        exact marks_notes ..
      by_cases hc : w.collector = c
      · subst hc
        obtain rfl : z = x := Option.some.inj (hz.symm.trans hx)
        have hlength := (List.getElem?_eq_some_iff.mp hx).1
        obtain ⟨ms, y, hruns, hy, hms⟩ := ih ((Step.wake hw).orderly hs)
          (x := (z.wake w.loop w.time).1) (by rw [hcollectors, List.getElem?_set_self hlength])
        rw [htime] at hruns
        refine ⟨_, y, .wake hnext hlt hruns, hy, ?_⟩
        rw [hms, hmarks, if_pos rfl, List.append_assoc]
      · -- another collector wakes, and not after this one would
        obtain ⟨ms, y, hruns, hy, hms⟩ := ih ((Step.wake hw).orderly hs) (x := x)
          (by rw [hcollectors, List.getElem?_set_ne hc, hx])
        rw [htime] at hruns
        refine ⟨ms, y, hruns.elapse (Collector.le_next? hnext) fun u k hu => ?_, hy, ?_⟩
        · obtain ⟨w', hw', hle⟩ := next?_le_collector hs hx hu
          obtain rfl : w = w' := Option.some.inj (hw.symm.trans hw')
          exact hle
        · rw [hms, hmarks, if_neg hc, List.nil_append]

end Project

end AccountCensus.Service
