import AccountCensus.Proofs.Steps
import Mathlib.Logic.Relation

/-!
# Settling

`settle` serves wakes with fuel. The fuel is the rank of the service, and every wake before the
deadline lowers the rank (`wake_rank_lt`), so that the fuel never runs out early: `settle_settles`
gives the wakes without it, and `settle_quiet` says that after them no loop wakes before the
deadline.

With this a command is a list of `Stride`s: acts of its own, and settling. A property of all
moments goes along `Step`, a property that holds again each time the service has come to rest goes
along `Stride`.
-/

namespace AccountCensus.Service

open Relation

/-! ## The rank -/

/-- Lowering one item lowers the sum. -/
theorem sum_modify_lt {α : Type} (g : α → ℕ) (f : α → α) : ∀ {xs : List α} {k : ℕ} {a : α},
    xs[k]? = some a → g (f a) < g a →
    (xs.modify k f).foldr (fun a n => g a + n) 0 < xs.foldr (fun a n => g a + n) 0
  | [], _, _, h, _ => by simp at h
  | x :: xs, 0, a, h, hlt => by
      obtain rfl : x = a := Option.some.inj h
      rw [List.modify_zero_cons, List.foldr_cons, List.foldr_cons]
      omega
  | x :: xs, k + 1, a, h, hlt => by
      have ih : (xs.modify k f).foldr (fun a n => g a + n) 0 < xs.foldr (fun a n => g a + n) 0 :=
        sum_modify_lt g f h hlt
      rw [List.modify_succ_cons, List.foldr_cons, List.foldr_cons]
      omega

/-- Each tick is due later than the one before it. -/
theorem nextDue_gt {interval : Duration} (hz : interval.nanos ≠ 0) (due now : ℕ) :
    due < nextDue interval due now := by
  unfold nextDue
  split <;> omega

/-- **A turn before the deadline lowers the rank of its loop.** -/
theorem Turn.rank_lt {interval timeout : Duration} {now t deadline : ℕ} {f : Fetch} {l : Loop}
    {hs : List Happening} {phase : Phase} {began : Bool}
    (h : Turn interval timeout t f l hs phase began) (ht : l.wakeTime? now = some t)
    (hlt : t < deadline) (hfits : l.phase.Fits interval) (b : Bool) :
    Loop.rank (deadline * nanosPerMilli) ⟨phase, b⟩ <
      Loop.rank (deadline * nanosPerMilli) l := by
  -- a tick that is served was due before the deadline, and the next one is due later
  have hdue : ∀ due, l.phase = .waiting due → l.cancelled = false →
      interval.nanos ≠ 0 ∧ due < deadline * nanosPerMilli := by
    intro due hp hc
    rw [hp, Phase.fits_waiting] at hfits
    have hmax := Option.some.inj ((Loop.wakeTime?_waiting hp hc now).symm.trans ht)
    have hceil : (Duration.mk due).ceilMillis ≤ t := by
      rw [← hmax]
      exact le_max_right _ _
    have hle := Duration.ceilMillis_le_iff.mp hceil
    have hmul : t * nanosPerMilli < deadline * nanosPerMilli :=
      Nat.mul_lt_mul_of_pos_right hlt (by decide)
    exact ⟨hfits, hle.trans_lt hmul⟩
  cases h with
  | panic hp _ => simp [Loop.rank, hp]
  | start hp _ =>
      simp only [Loop.rank, hp]
      omega
  | stop hp _ => simp [Loop.rank, hp]
  | @serve due hp hc _ =>
      obtain ⟨hz, hlt⟩ := hdue due hp hc
      have hgt := nextDue_gt hz due t
      simp only [Loop.rank, hp]
      omega
  | @fetch due hp hc _ =>
      obtain ⟨hz, hlt⟩ := hdue due hp hc
      have hgt := nextDue_gt hz due t
      simp only [Loop.rank, hp]
      omega
  | abandon hp _ => simp [Loop.rank, hp]
  | finish hp _ => simp [Loop.rank, hp]

theorem Collector.beginFetch_rank (x : Collector) (horizon : ℕ) :
    x.beginFetch.1.rank horizon = x.rank horizon := by
  rw [rank, rank, beginFetch_loops, List.foldr_map]
  simp only [Loop.told_rank]

/-- **A wake before the deadline lowers the rank of the service.** -/
theorem wake_rank_lt {s : Service} (hs : s.Orderly) {w : Wake} (h : s.next? = some w)
    {deadline : ℕ} (hlt : w.time < deadline) : (s.wake w).rank deadline < s.rank deadline := by
  obtain ⟨x, l, happenings, phase, began, h⟩ := exists_woken h
  have hfits := (hs.valid _ x h.collector).fits l (List.mem_of_getElem? h.loop)
  have hloop : ∀ (y : Collector) (l' : Loop), y.loops[w.loop]? = some l' →
      Loop.rank (deadline * nanosPerMilli) l' = Loop.rank (deadline * nanosPerMilli) l →
      (y.setPhase w.loop phase).rank (deadline * nanosPerMilli) <
        y.rank (deadline * nanosPerMilli) := by
    intro y l' hl' hrank
    refine sum_modify_lt _ _ hl' ?_
    rw [hrank]
    exact h.turn.rank_lt h.wakeTime hlt hfits _
  rw [rank, rank, h.collectors]
  refine sum_modify_lt _ _ h.collector ?_
  cases began with
  | false => exact hloop x l h.loop rfl
  | true =>
      rw [← x.beginFetch_rank]
      refine hloop _ (l.told x.beginFetch.2.cancels) ?_ (Loop.told_rank _ _ l)
      simp [Collector.beginFetch_loops, h.loop]

/-! ## Quiet -/

/-- No loop wakes before millisecond `t`. -/
def Quiet (s : Service) (t : ℕ) : Prop := ∀ w, s.next? = some w → t ≤ w.time

/-- What every wake before the deadline keeps, settling keeps. -/
theorem settle_induction {P : Service → Prop} {deadline : ℕ}
    (hstep : ∀ s w, P s → s.next? = some w → w.time < deadline → P (s.wake w)) {s : Service}
    (hs : P s) : P (s.settle deadline) := by
  unfold settle
  generalize s.rank deadline = fuel
  induction fuel generalizing s with
  | zero => exact hs
  | succ fuel ih =>
      rw [serve]
      split
      · exact hs
      · rename_i w hw
        split
        · exact ih (hstep s w hs hw (by assumption))
        · exact hs

/-- Settling without fuel: the wakes before the deadline, one after the other. -/
inductive Settles (deadline : ℕ) : Service → Service → Prop
  | quiet {s : Service} : s.Quiet deadline → Settles deadline s s
  | wake {s s' : Service} {w : Wake} : s.next? = some w → w.time < deadline →
      Settles deadline (s.wake w) s' → Settles deadline s s'

/-- **The fuel suffices.** -/
theorem settle_settles {s : Service} (hs : s.Orderly) (deadline : ℕ) :
    Settles deadline s (s.settle deadline) := by
  have hserve : ∀ fuel {s : Service}, s.Orderly → s.rank deadline ≤ fuel →
      Settles deadline s (s.serve deadline fuel) := by
    intro fuel
    induction fuel with
    | zero =>
        -- a wake before the deadline would lower a rank that is zero
        intro s hs hrank
        refine .quiet fun w hw => ?_
        by_contra hlt
        have := wake_rank_lt hs hw (not_le.mp hlt)
        omega
    | succ fuel ih =>
        intro s hs hrank
        rw [serve]
        split
        · rename_i hnone
          refine .quiet fun w hw => ?_
          rw [hnone] at hw
          cases hw
        · rename_i w hw
          split
          · rename_i hlt
            have := wake_rank_lt hs hw hlt
            exact .wake hw hlt (ih ((Step.wake hw).orderly hs) (by omega))
          · rename_i hge
            refine .quiet fun w' hw' => ?_
            obtain rfl : w = w' := Option.some.inj (hw.symm.trans hw')
            exact not_lt.mp hge
  exact hserve _ hs le_rfl

theorem Settles.is_quiet {s s' : Service} {deadline : ℕ} (h : Settles deadline s s') :
    s'.Quiet deadline := by
  induction h with
  | quiet hquiet => exact hquiet
  | wake _ _ _ ih => exact ih

/-- After settling no loop wakes before the deadline. -/
theorem settle_quiet {s : Service} (hs : s.Orderly) (deadline : ℕ) :
    (s.settle deadline).Quiet deadline :=
  (settle_settles hs deadline).is_quiet

theorem settle_steps (s : Service) (deadline : ℕ) : ReflTransGen Step s (s.settle deadline) :=
  settle_induction (P := ReflTransGen Step s) (fun _ _ h hw _ => h.tail (.wake hw)) .refl

/-- The clock stays before the deadline, unless there is nothing to serve. -/
theorem settle_eq_or_time_lt (s : Service) (deadline : ℕ) :
    s.settle deadline = s ∨ (s.settle deadline).time < deadline := by
  refine settle_induction (P := fun s' => s' = s ∨ s'.time < deadline) ?_ (.inl rfl)
  intro s' w _ hw hlt
  obtain ⟨x, l, hs, phase, began, h⟩ := exists_woken hw
  exact .inr (h.time ▸ hlt)

theorem settle_time_le {s : Service} {deadline : ℕ} (h : s.time ≤ deadline) :
    (s.settle deadline).time ≤ deadline := by
  rcases s.settle_eq_or_time_lt deadline with heq | hlt
  · rwa [heq]
  · exact hlt.le

/-- What happened in the foreground. -/
def foreground (records : List Record) : List Record := records.filter (·.loop.isNone)

theorem trace_foreground (c : ℕ) (records : List Record) :
    trace c none (foreground records) = trace c none records := by
  unfold trace foreground
  rw [List.filterMap_filter]
  congr 1
  funext r
  cases h : r.loop <;> simp

/-- Settling leaves the censuses in the foreground alone. -/
theorem foreground_settle (s : Service) (deadline : ℕ) :
    foreground (s.settle deadline).history = foreground s.history := by
  refine settle_induction (P := fun s' => foreground s'.history = foreground s.history) ?_ rfl
  intro s' w ih hw _
  obtain ⟨x, l, hs, phase, began, h⟩ := exists_woken hw
  have hnone : foreground (hs.map (⟨w.time, w.collector, some w.loop, ·⟩)).reverse = [] := by
    rw [foreground, List.filter_eq_nil_iff]
    intro r hr
    obtain ⟨e, -, rfl⟩ := List.mem_map.mp (List.mem_reverse.mp hr)
    exact Bool.false_ne_true
  rw [← ih, h.history, foreground, List.filter_append]
  exact congrArg (· ++ foreground s'.history) hnone

theorem settle_foreground (s : Service) (deadline c : ℕ) :
    trace c none (s.settle deadline).history = trace c none s.history := by
  rw [← trace_foreground, foreground_settle, trace_foreground]

/-- Settling leaves the time-outs and the loops to join alone. -/
theorem settle_collector {s : Service} (deadline : ℕ) {c : ℕ} {x : Collector}
    (hx : s.collectors[c]? = some x) :
    ∃ y, (s.settle deadline).collectors[c]? = some y ∧ y.timeout = x.timeout ∧
      y.joinable = x.joinable := by
  refine settle_induction (P := fun s' => ∃ y, s'.collectors[c]? = some y ∧
    y.timeout = x.timeout ∧ y.joinable = x.joinable) ?_ ⟨x, hx, rfl, rfl⟩
  rintro s' w ⟨y, hy, hyt, hyj⟩ hw -
  obtain ⟨z, l, hs, phase, began, h⟩ := exists_woken hw
  rw [h.collectors, List.getElem?_modify, hy]
  refine ⟨_, rfl, ?_, ?_⟩
  · split
    · cases began <;> simpa using hyt
    · exact hyt
  · split
    · cases began <;> simpa using hyj
    · exact hyj

end AccountCensus.Service
