import AccountCensus.Proofs.Life
import Mathlib.Order.MinMax

/-!
# The cadence of a loop

The marks in the trace of a loop make its passes: each begins with a fetch and ends with it.
`Timely` tells when they can begin. The due time of a tick is a recurrence over the passes before
it (`dueAfter`), with two regimes: a tick that is served more than 5 ms late moves the later ones.
A pass begins when the pass before it has ended and its tick has come, whichever is later.

`Regular` relates this to the phase of the loop: it waits for the tick that is due after its
passes, and before the tick, or the end of the last pass, the clock does not get away. From
`Timely` alone follow the spacing of the passes (`Timely.spacing`) and that without slow passes
there is no drift (`Timely.on_schedule`).
-/

namespace AccountCensus.Service

open Relation

/-! ## Passes -/

structure Pass where
  began : ℕ
  ended : Option ℕ
deriving DecidableEq

/-- The latest pass ends. -/
def endPass (t : ℕ) : List Pass → List Pass
  | [] => []
  | p :: ps => { p with ended := some t } :: ps

/-- The passes in a trace, the latest first. -/
def passes : List (ℕ × Happening) → List Pass
  | [] => []
  | (t, .fetchBegan _) :: tr => ⟨t, none⟩ :: passes tr
  | (t, .fetchEnded _) :: tr => endPass t (passes tr)
  | _ :: tr => passes tr

/-- The time at which the loop first ran. -/
def startTime? (tr : List (ℕ × Happening)) : Option ℕ :=
  tr.findSome? fun e =>
    match e.2 with
    | .loopStarted _ => some e.1
    | _ => none

/-- The due time of the tick after some passes, in nanoseconds. -/
def dueAfter (interval : Duration) (start : ℕ) : List Pass → ℕ
  | [] => start * nanosPerMilli
  | p :: ps => nextDue interval (dueAfter interval start ps) p.began

/-- The millisecond at which the tick after some passes can be served. -/
def tickAfter (interval : Duration) (start : ℕ) (ps : List Pass) : ℕ :=
  (Duration.mk (dueAfter interval start ps)).ceilMillis

theorem tickAfter_le_iff {interval : Duration} {start t : ℕ} {ps : List Pass} :
    tickAfter interval start ps ≤ t ↔ dueAfter interval start ps ≤ t * nanosPerMilli :=
  Duration.ceilMillis_le_iff

/-- The time since which the loop waits. -/
def idleSince (start : ℕ) : List Pass → ℕ
  | [] => start
  | p :: _ => p.ended.getD p.began

/-- The passes that a loop can make: each begins when the one before it has ended and its tick has
come. -/
inductive Timely (interval : Duration) (start : ℕ) : List Pass → Prop
  | nil : Timely interval start []
  | begin {ps : List Pass} {b : ℕ} : Timely interval start ps →
      (∀ p ∈ ps.head?, p.ended ≠ none) →
      b = max (idleSince start ps) (tickAfter interval start ps) →
      Timely interval start (⟨b, none⟩ :: ps)
  | finish {ps : List Pass} {b e : ℕ} : Timely interval start (⟨b, none⟩ :: ps) → b ≤ e →
      Timely interval start (⟨b, some e⟩ :: ps)

namespace Timely

variable {interval : Duration} {start : ℕ} {p q : Pass} {ps newer older : List Pass}

theorem pass (h : Timely interval start (p :: ps)) :
    Timely interval start ps ∧ (∀ q ∈ ps.head?, q.ended ≠ none) ∧
      p.began = max (idleSince start ps) (tickAfter interval start ps) ∧
      ∀ e, p.ended = some e → p.began ≤ e := by
  cases h with
  | begin h hended hb => exact ⟨h, hended, hb, fun e he => by cases he⟩
  | finish h hle =>
      cases h with
      | begin h hended hb =>
          refine ⟨h, hended, hb, fun e he => ?_⟩
          obtain rfl := Option.some.inj he
          exact hle

/-- The passes of before were timely as well. -/
theorem suffix (h : Timely interval start (newer ++ ps)) : Timely interval start ps := by
  induction newer with
  | nil => exact h
  | cons p newer ih => exact ih h.pass.1

/-- **The next pass** begins when this one has ended and its own tick has come. -/
theorem next (h : Timely interval start (q :: p :: ps)) :
    ∃ e, p.ended = some e ∧ p.began ≤ e ∧ q.began = max e (tickAfter interval start (p :: ps)) := by
  obtain ⟨hp, hended, hq, -⟩ := h.pass
  obtain ⟨e, he⟩ := Option.ne_none_iff_exists'.mp (hended p rfl)
  refine ⟨e, he, hp.pass.2.2.2 e he, ?_⟩
  rw [hq, idleSince, he, Option.getD_some]

/-- A pass does not begin before its tick is due. -/
theorem dueAfter_le (h : Timely interval start (p :: ps)) :
    dueAfter interval start ps ≤ p.began * nanosPerMilli := by
  apply tickAfter_le_iff.mp
  rw [h.pass.2.2.1]
  exact le_max_right _ _

/-- **No bursts**: two beginnings are an interval apart, less the tolerance. -/
theorem spacing (h : Timely interval start (q :: p :: ps)) :
    p.began * nanosPerMilli + interval.nanos ≤ q.began * nanosPerMilli + tolerance := by
  have hdue := h.dueAfter_le
  rw [dueAfter, nextDue] at hdue
  split at hdue <;> omega

/-- **No drift**: as long as no pass lasts longer than an interval, the next tick is due a whole
number of intervals after the start, and the loop does not miss it. -/
theorem on_schedule (h : Timely interval start ps)
    (hfast : ∀ p ∈ ps, ∀ e, p.ended = some e →
      e * nanosPerMilli ≤ p.began * nanosPerMilli + interval.nanos) :
    dueAfter interval start ps = start * nanosPerMilli + ps.length * interval.nanos ∧
      idleSince start ps ≤ tickAfter interval start ps := by
  induction ps with
  | nil =>
      refine ⟨by simp [dueAfter], ?_⟩
      simp only [idleSince, tickAfter, dueAfter, Duration.ceilMillis, nanosPerMilli]
      omega
  | cons p ps ih =>
      obtain ⟨hps, -, hbegan, -⟩ := h.pass
      obtain ⟨hdue, hidle⟩ := ih hps fun q hq => hfast q (List.mem_cons_of_mem _ hq)
      rw [max_eq_right hidle] at hbegan
      -- rounded up to a millisecond the tick is served, and that is not late
      have hpunctual : p.began * nanosPerMilli ≤ dueAfter interval start ps + tolerance := by
        rw [hbegan]
        simp only [tickAfter, Duration.ceilMillis, nanosPerMilli, tolerance]
        omega
      have hnext : dueAfter interval start (p :: ps) =
          dueAfter interval start ps + interval.nanos := by
        rw [dueAfter, nextDue, if_neg (not_lt.mpr hpunctual)]
      refine ⟨?_, ?_⟩
      · rw [hnext, hdue, List.length_cons, Nat.succ_mul, Nat.add_assoc]
      · have hfast' := hfast p List.mem_cons_self
        rw [tickAfter, hnext, idleSince]
        rw [tickAfter] at hbegan
        cases he : p.ended with
        | none =>
            rw [Option.getD_none, hbegan]
            simp only [Duration.ceilMillis]
            omega
        | some e =>
            have hle := hfast' e he
            rw [hbegan] at hle
            simp only [Option.getD_some, Duration.ceilMillis, nanosPerMilli] at hle ⊢
            omega

theorem began_eq (h : Timely interval start (newer ++ p :: older))
    (hfast : ∀ q ∈ older, ∀ e, q.ended = some e →
      e * nanosPerMilli ≤ q.began * nanosPerMilli + interval.nanos) :
    p.began =
      (Duration.mk (start * nanosPerMilli + older.length * interval.nanos)).ceilMillis := by
  obtain ⟨holder, -, hbegan, -⟩ := h.suffix.pass
  obtain ⟨hdue, hidle⟩ := holder.on_schedule hfast
  rw [hbegan, max_eq_right hidle, tickAfter, hdue]

end Timely

/-! ## The invariant -/

/-- A loop that has run, with its passes and its phase. -/
structure Regular (interval : Duration) (start : ℕ) (v : View) : Prop where
  started : startTime? v.trace = some start
  timely : Timely interval start (passes v.trace)
  ran : v.loop.phase ≠ .spawned
  stopped : v.loop.phase = .stopped → v.loop.cancelled = true
  waiting : ∀ due, v.loop.phase = .waiting due →
    due = dueAfter interval start (passes v.trace) ∧
    (∀ p ∈ (passes v.trace).head?, p.ended ≠ none) ∧
    idleSince start (passes v.trace) ≤ v.now ∧
    (v.loop.cancelled = false →
      v.now ≤ max (idleSince start (passes v.trace)) (tickAfter interval start (passes v.trace)))
  fetching : ∀ due finish e, v.loop.phase = .fetching due finish e →
    due = dueAfter interval start (passes v.trace) ∧
    ∃ b older, passes v.trace = ⟨b, none⟩ :: older ∧ b ≤ v.now

theorem Regular.idle {interval : Duration} {start : ℕ} {v v' : View} (hidle : Idle v v')
    (h : Regular interval start v) : Regular interval start v' := by
  cases hidle with
  | @elapse t hle hbefore =>
      refine ⟨h.started, h.timely, h.ran, h.stopped, fun due hp => ?_, fun due finish e hp => ?_⟩
      · obtain ⟨hdue, hended, hsince, hbound⟩ := h.waiting due hp
        refine ⟨hdue, hended, hsince.trans hle, fun hc => ?_⟩
        have ht := hbefore _ (Loop.wakeTime?_waiting hp hc v.now)
        rw [hdue] at ht
        exact ht.trans (max_le (hbound hc) (le_max_right _ _))
      · obtain ⟨hdue, b, older, hps, hb⟩ := h.fetching due finish e hp
        exact ⟨hdue, b, older, hps, hb.trans hle⟩
  | told b =>
      refine ⟨h.started, h.timely, h.ran, fun hp => ?_, fun due hp => ?_, h.fetching⟩
      · simp [h.stopped hp]
      · obtain ⟨hdue, hended, hsince, hbound⟩ := h.waiting due hp
        exact ⟨hdue, hended, hsince, fun hc => hbound (Bool.or_eq_false_iff.mp hc).1⟩

/-- A tick is served at the end of the pass before it, or when it has come. -/
theorem Regular.now_eq {interval : Duration} {start due : ℕ} {v : View}
    (h : Regular interval start v) (hp : v.loop.phase = .waiting due)
    (hc : v.loop.cancelled = false) (hwake : v.loop.wakeTime? v.now = some v.now) :
    v.now = max (idleSince start (passes v.trace)) (tickAfter interval start (passes v.trace)) := by
  obtain ⟨hdue, -, hsince, hbound⟩ := h.waiting due hp
  rw [Loop.wakeTime?_waiting hp hc, hdue] at hwake
  have hmax := Option.some.inj hwake
  have htick : tickAfter interval start (passes v.trace) ≤ v.now := by
    rw [← hmax]
    exact le_max_right _ _
  exact le_antisymm (hbound hc) (max_le hsince htick)

theorem Regular.turn {interval timeout : Duration} {start : ℕ} {v : View} {f : Fetch}
    {hs : List Happening} {phase : Phase} {began : Bool} (h : Regular interval start v)
    (hwake : v.loop.wakeTime? v.now = some v.now)
    (hturn : Turn interval timeout v.now f v.loop hs phase began) :
    Regular interval start (v.turned hs phase (began && f.cancels)) := by
  have hstart := h.started
  cases hturn with
  | panic hp _ => exact absurd hp h.ran
  | start hp _ => exact absurd hp h.ran
  | stop hp hc =>
      exact ⟨hstart, h.timely, by simp [View.turned], fun _ => by simp [View.turned, hc],
        by simp [View.turned], by simp [View.turned]⟩
  | @serve due hp hc _ =>
      obtain ⟨hdue, hended, -, -⟩ := h.waiting due hp
      have hbegin := h.timely.begin hended (h.now_eq hp hc hwake)
      refine ⟨hstart, hbegin.finish le_rfl, by simp [View.turned], by simp [View.turned],
        fun due' hp' => ?_, by simp [View.turned]⟩
      obtain rfl := Phase.waiting.inj hp'
      exact ⟨by rw [hdue]; rfl, fun p hp => by cases hp; simp, le_rfl,
        fun _ => le_max_left v.now _⟩
  | @fetch due hp hc _ =>
      obtain ⟨hdue, hended, -, -⟩ := h.waiting due hp
      have hbegin := h.timely.begin hended (h.now_eq hp hc hwake)
      refine ⟨hstart, hbegin, by simp [View.turned], by simp [View.turned],
        by simp [View.turned], fun due' finish e hp' => ?_⟩
      obtain ⟨rfl, -, -⟩ := Phase.fetching.inj hp'
      exact ⟨by rw [hdue]; rfl, v.now, _, rfl, le_rfl⟩
  | abandon hp hc =>
      obtain ⟨-, b, older, hps, hb⟩ := h.fetching _ _ _ hp
      have htimely := h.timely
      rw [hps] at htimely
      refine ⟨hstart, ?_, by simp [View.turned], fun _ => by simp [View.turned, hc],
        by simp [View.turned], by simp [View.turned]⟩
      show Timely interval start (endPass v.now (passes v.trace))
      rw [hps]
      exact htimely.finish hb
  | finish hp hc =>
      obtain ⟨hdue, b, older, hps, hb⟩ := h.fetching _ _ _ hp
      have htimely := h.timely
      rw [hps] at htimely hdue
      have hended : endPass v.now (passes v.trace) = ⟨b, some v.now⟩ :: older :=
        congrArg (endPass v.now) hps
      refine ⟨hstart, ?_, by simp [View.turned], by simp [View.turned],
        fun due' hp' => ?_, by simp [View.turned]⟩
      · show Timely interval start (endPass v.now (passes v.trace))
        rw [hended]
        exact htimely.finish hb
      · obtain rfl := Phase.waiting.inj hp'
        show _ = dueAfter interval start (endPass v.now (passes v.trace)) ∧
          (∀ p ∈ (endPass v.now (passes v.trace)).head?, p.ended ≠ none) ∧
          idleSince start (endPass v.now (passes v.trace)) ≤ v.now ∧
          (_ → v.now ≤ max (idleSince start (endPass v.now (passes v.trace))) _)
        rw [hended]
        exact ⟨hdue, fun p hp => by cases hp; simp, le_rfl, fun _ => le_max_left v.now _⟩

/-- **Every loop that has run is regular.** -/
theorem regular_of_life {interval timeout : Duration} {v : View} (h : Life interval timeout v) :
    v.loop.phase = .spawned ∧ v.trace = [] ∨ ∃ start, Regular interval start v := by
  refine life_induction (P := fun v => v.loop.phase = .spawned ∧ v.trace = [] ∨
    ∃ start, Regular interval start v) ?_ ?_ h
  · intro now cancelled
    exact .inl ⟨rfl, rfl⟩
  · intro v v' hchange ih
    cases hchange with
    | idle hidle =>
        rcases ih with h | ⟨start, h⟩
        · cases hidle <;> exact .inl h
        · exact .inr ⟨start, h.idle hidle⟩
    | turn hwake hturn =>
        rcases ih with ⟨hspawned, htrace⟩ | ⟨start, h⟩
        · refine .inr ⟨v.now, ?_⟩
          cases hturn with
          | panic _ _ =>
              constructor <;> simp [View.turned, htrace, startTime?, passes, Timely.nil]
          | start _ _ =>
              refine ⟨by simp [View.turned, htrace, startTime?], ?_, by simp [View.turned],
                by simp [View.turned], fun due hp => ?_, by simp [View.turned]⟩
              · simp [View.turned, htrace, passes, Timely.nil]
              · obtain rfl := Phase.waiting.inj hp
                have hnow : v.now ≤ max v.now (tickAfter interval v.now []) := le_max_left _ _
                simp [View.turned, htrace, passes, dueAfter, idleSince, hnow]
          | stop hp _ => rw [hspawned] at hp; cases hp
          | serve hp _ _ => rw [hspawned] at hp; cases hp
          | fetch hp _ _ => rw [hspawned] at hp; cases hp
          | abandon hp _ => rw [hspawned] at hp; cases hp
          | finish hp _ => rw [hspawned] at hp; cases hp
        · exact .inr ⟨start, h.turn hwake hturn⟩

/-! ## At rest -/

/-- A loop that is not cancelled waits for a tick that has not come yet. -/
def AwaitsTick (v : View) : Prop :=
  v.loop.cancelled = false → ∀ due start, v.loop.phase = .waiting due →
    startTime? v.trace = some start →
    idleSince start (passes v.trace) < (Duration.mk due).ceilMillis

theorem awaitsTick_of_strides {s₀ s : Service} {c k : ℕ} {interval timeout : Duration} {v : View}
    (h₀ : s₀.Orderly) (hfresh : s₀.Fresh) (h : ReflTransGen Stride s₀ s)
    (hv : s.Sees c k interval timeout v) : AwaitsTick v := by
  refine rest_induction h₀ hfresh (P := AwaitsTick) ?_ ?_ ?_ h hv
  · intro now cancelled _ due start hp
    cases hp
  · intro v v' hidle ih
    cases hidle with
    | elapse _ _ => exact ih
    | told b => exact fun hc => ih (Bool.or_eq_false_iff.mp hc).1
  · intro v hlife hquiet hc due start hp hstart
    have hlt : v.now < (Duration.mk due).ceilMillis := by
      have hwake := hquiet _ (Loop.wakeTime?_waiting hp hc v.now)
      exact (lt_max_iff.mp hwake).resolve_left (lt_irrefl _)
    rcases regular_of_life hlife with ⟨hspawned, -⟩ | ⟨start', hregular⟩
    · rw [hspawned] at hp
      cases hp
    · obtain rfl : start' = start := Option.some.inj (hregular.started.symm.trans hstart)
      exact (hregular.waiting due hp).2.2.1.trans_lt hlt

section Rest

variable {interval : Duration} {start : ℕ} {v : View} (h : Regular interval start v)
  (hc : v.loop.cancelled = false) (hfits : v.loop.phase.Fits interval) (hz : interval.nanos ≠ 0)
include h hc hfits hz

/-- A loop that is not cancelled waits for a tick or has a fetch in flight. -/
theorem Regular.waits :
    (∃ due, v.loop.phase = .waiting due) ∨
      ∃ due finish e, v.loop.phase = .fetching due finish e := by
  cases hp : v.loop.phase with
  | spawned => exact absurd hp h.ran
  | waiting due => exact .inl ⟨due, rfl⟩
  | fetching due finish e => exact .inr ⟨due, finish, e, rfl⟩
  | stopped => rw [h.stopped hp] at hc; cases hc
  | panicked =>
      rw [hp] at hfits
      exact absurd hfits hz

/-- At rest the tick after the passes has not come before the loop became idle. -/
theorem Regular.idle_lt_tick (hawaits : AwaitsTick v)
    (hended : ∀ p ∈ (passes v.trace).head?, p.ended ≠ none) :
    idleSince start (passes v.trace) < tickAfter interval start (passes v.trace) := by
  rcases h.waits hc hfits hz with ⟨due, hp⟩ | ⟨due, finish, e, hp⟩
  · have hlt := hawaits hc due start hp h.started
    rwa [(h.waiting due hp).1] at hlt
  · obtain ⟨-, b, older, hps, -⟩ := h.fetching due finish e hp
    rw [hps] at hended
    exact absurd rfl (hended ⟨b, none⟩ rfl)

/-- While no pass lasts longer than an interval the clock does not get away from the next tick. -/
theorem Regular.now_le (hfast : ∀ p ∈ passes v.trace,
      p.ended.getD v.now * nanosPerMilli ≤ p.began * nanosPerMilli + interval.nanos) :
    v.now ≤ (Duration.mk (start * nanosPerMilli +
      (passes v.trace).length * interval.nanos)).ceilMillis := by
  obtain ⟨hdue, hidle⟩ := h.timely.on_schedule fun p hp e he => by
    have hle := hfast p hp
    rwa [he] at hle
  rw [← hdue]
  rcases h.waits hc hfits hz with ⟨due, hp⟩ | ⟨due, finish, e, hp⟩
  · obtain ⟨-, -, -, hbound⟩ := h.waiting due hp
    exact (hbound hc).trans (max_le hidle le_rfl)
  · obtain ⟨-, b, older, hps, -⟩ := h.fetching due finish e hp
    have htimely := h.timely
    rw [hps] at htimely hdue hfast ⊢
    obtain ⟨holder, -, hbegan, -⟩ := htimely.pass
    obtain ⟨hdue', hidle'⟩ := holder.on_schedule fun p hp e he => by
      have hle := hfast p (List.mem_cons_of_mem _ hp)
      rwa [he] at hle
    have hlast := hfast ⟨b, none⟩ List.mem_cons_self
    rw [max_eq_right hidle', tickAfter, hdue'] at hbegan
    rw [hdue, List.length_cons, Nat.succ_mul]
    simp only [Option.getD_none, Duration.ceilMillis, nanosPerMilli] at hlast hbegan ⊢
    omega

/-- While no pass lasts longer than an interval every pass that can have begun by now has begun. -/
theorem Regular.caught_up (hfast : ∀ p ∈ passes v.trace,
      p.ended.getD v.now * nanosPerMilli ≤ p.began * nanosPerMilli + interval.nanos) {n : ℕ}
    (hn : (Duration.mk (start * nanosPerMilli + n * interval.nanos)).ceilMillis < v.now) :
    n < (passes v.trace).length := by
  by_contra hge
  have hnow := h.now_le hc hfits hz hfast
  have hmul := Nat.mul_le_mul_right interval.nanos (not_lt.mp hge)
  simp only [Duration.ceilMillis] at hnow hn
  omega

variable (hawaits : AwaitsTick v)
include hawaits

/-- At rest the first pass has begun. -/
theorem Regular.passes_ne_nil : passes v.trace ≠ [] := by
  intro hnil
  have hlt := h.idle_lt_tick hc hfits hz hawaits (by simp [hnil])
  rw [hnil] at hlt
  simp only [idleSince, tickAfter, dueAfter, Duration.ceilMillis, nanosPerMilli] at hlt
  omega

/-- At rest a pass that ended after the next tick fell due was followed at once. -/
theorem Regular.followed {newer older : List Pass} {p : Pass} {e : ℕ}
    (hps : passes v.trace = newer ++ p :: older) (he : p.ended = some e)
    (hdue : dueAfter interval start (p :: older) ≤ e * nanosPerMilli) :
    ∃ newer' q, newer = newer' ++ [q] ∧ q.began = e := by
  have htimely := h.timely
  rcases List.eq_nil_or_concat newer with rfl | ⟨newer', q, hnewer⟩
  · -- the last pass: the loop would wait for a tick that has come
    have hlt := h.idle_lt_tick hc hfits hz hawaits fun q hq => by
      rw [hps] at hq
      obtain rfl : p = q := Option.some.inj hq
      simp [he]
    rw [hps] at hlt
    simp only [List.nil_append, idleSince, he, Option.getD_some] at hlt
    exact absurd (tickAfter_le_iff.mpr hdue) (not_le.mpr hlt)
  · rw [List.concat_eq_append] at hnewer
    refine ⟨newer', q, hnewer, ?_⟩
    rw [hps, hnewer, List.append_assoc] at htimely
    obtain ⟨e', he', -, hbegan⟩ := htimely.suffix.next
    obtain rfl : e = e' := Option.some.inj (he.symm.trans he')
    rw [hbegan]
    exact max_eq_left (tickAfter_le_iff.mpr hdue)

end Rest

/-- **The cadence of a loop.** Of any loop that ticks and has run, in any service and after any
commands, with `due` times by the recurrence of the timer:

- its first pass begins when it first runs;
- a pass begins when the one before it has ended and its tick has come, whichever is later, and
  two beginnings are an interval apart, less 5 ms;
- while the passes before it lasted no longer than an interval, pass `n` begins `n` intervals
  after the start, rounded up to a millisecond;
- if it is not cancelled there is a first pass, a pass that ended after the next tick fell due is
  followed by another one at that very instant, and while no pass lasts longer than an interval
  every pass that can have begun by now has begun. -/
theorem passes_keep_cadence (foreign : Gauge.Registry) (sources : List Source)
    (commands : List Command) (c k start : ℕ) (x : Collector) (l : Loop) :
    let s := (create foreign sources).after commands
    let ps := passes (trace c (some k) s.history)
    s.collectors[c]? = some x → x.loops[k]? = some l → x.interval.nanos ≠ 0 →
    startTime? (trace c (some k) s.history) = some start →
    (∀ newer p, ps = newer ++ [p] → p.began = start) ∧
    (∀ newer q p older, ps = newer ++ q :: p :: older →
      ∃ e, p.ended = some e ∧ p.began ≤ e ∧ e ≤ q.began ∧
        q.began = max e (tickAfter x.interval start (p :: older)) ∧
        p.began * nanosPerMilli + x.interval.nanos ≤ q.began * nanosPerMilli + tolerance) ∧
    (∀ newer p older, ps = newer ++ p :: older →
      (∀ q ∈ older, ∀ e, q.ended = some e →
        e * nanosPerMilli ≤ q.began * nanosPerMilli + x.interval.nanos) →
      p.began = (Duration.mk (start * nanosPerMilli +
        older.length * x.interval.nanos)).ceilMillis) ∧
    (l.cancelled = false →
      ps ≠ [] ∧
      (∀ newer p older e, ps = newer ++ p :: older → p.ended = some e →
        dueAfter x.interval start (p :: older) ≤ e * nanosPerMilli →
        ∃ newer' q, newer = newer' ++ [q] ∧ q.began = e) ∧
      ∀ n, (∀ p ∈ ps, p.ended.getD s.time * nanosPerMilli ≤
          p.began * nanosPerMilli + x.interval.nanos) →
        (Duration.mk (start * nanosPerMilli + n * x.interval.nanos)).ceilMillis < s.time →
        n < ps.length) := by
  intro s ps hx hl hz hstart
  have h₀ := create_orderly foreign sources
  have hfresh := create_fresh foreign sources
  have hstrides : ReflTransGen Stride (create foreign sources) s := after_strides h₀ commands
  have hs : s.Orderly := after_orderly h₀ commands
  have hsees := sees_of_loop hx hl
  have hfits := (hs.valid c x hx).fits l (List.mem_of_getElem? hl)
  have hlife := life_of_steps h₀ hfresh (steps_of_strides hstrides) hsees
  have hregular : Regular x.interval start ⟨s.time, l, trace c (some k) s.history⟩ := by
    rcases regular_of_life hlife with ⟨-, htrace⟩ | ⟨start', h⟩
    · rw [show trace c (some k) s.history = [] from htrace] at hstart
      cases hstart
    · obtain rfl : start' = start := Option.some.inj (h.started.symm.trans hstart)
      exact h
  have htimely : Timely x.interval start ps := hregular.timely
  refine ⟨fun newer p hps => ?_, fun newer q p older hps => ?_, fun newer p older hps hfast => ?_,
    fun hc => ?_⟩
  · rw [hps] at htimely
    rw [htimely.began_eq (by simp)]
    simp only [Duration.ceilMillis, nanosPerMilli, List.length_nil]
    omega
  · rw [hps] at htimely
    obtain ⟨e, he, hle, hbegan⟩ := htimely.suffix.next
    exact ⟨e, he, hle, hbegan ▸ le_max_left _ _, hbegan, htimely.suffix.spacing⟩
  · rw [hps] at htimely
    exact htimely.began_eq hfast
  · have hawaits := awaitsTick_of_strides h₀ hfresh hstrides hsees
    exact ⟨hregular.passes_ne_nil hc hfits hz hawaits,
      fun newer p older e hps he hdue => hregular.followed hc hfits hz hawaits hps he hdue,
      fun n hfast hn => hregular.caught_up hc hfits hz hfast hn⟩

/-- An interval of 1.5 ms: the sixth pass of a loop that first runs at millisecond 4 begins 7.5 ms
later, rounded up, although two passes lasted a millisecond. -/
theorem cadence_below_a_millisecond :
    let answer (delay : ℕ) : Fetch := ⟨some (.ok []), delay, false⟩
    let sources : List Source := [⟨⟨1500000⟩, .ofMillis 500, [answer 0, answer 1, answer 1]⟩]
    let s := (create {} sources).after [.advance 4, .start 0 false, .advance 10]
    let ps := passes (trace 0 (some 0) s.history)
    ∃ x l p, s.collectors[0]? = some x ∧ x.loops[0]? = some l ∧ x.interval.nanos ≠ 0 ∧
      startTime? (trace 0 (some 0) s.history) = some 4 ∧ ps[1]? = some p ∧ ps.length = 7 ∧
      p.began = (Duration.mk (4 * nanosPerMilli + 5 * 1500000)).ceilMillis := by
  intro answer sources s ps
  have hsettings : s.collectors[0]?.map (fun x => (x.interval.nanos, x.loops.length)) =
      some (1500000, 1) := by
    decide +kernel
  have hstart : startTime? (trace 0 (some 0) s.history) = some 4 := by
    decide +kernel
  have hps : ps = [⟨13, some 13⟩] ++ ⟨12, some 12⟩ ::
      [⟨10, some 10⟩, ⟨9, some 9⟩, ⟨7, some 8⟩, ⟨6, some 7⟩, ⟨4, some 4⟩] := by
    decide +kernel
  obtain ⟨x, hx, hfacts⟩ := Option.map_eq_some_iff.mp hsettings
  obtain ⟨hinterval, hlength⟩ := Prod.mk.inj hfacts
  have hl : x.loops[0]? = some x.loops[0] := List.getElem?_eq_getElem (by omega)
  have hz : x.interval.nanos ≠ 0 := by omega
  have hbegan := (passes_keep_cadence {} sources [.advance 4, .start 0 false, .advance 10] 0 0 4
    x _ hx hl hz hstart).2.2.1 _ _ _ hps (by simp [nanosPerMilli, hinterval])
  rw [hinterval] at hbegan
  exact ⟨x, _, ⟨12, some 12⟩, hx, hl, hz, hstart, by rw [hps]; rfl, by rw [hps]; rfl, hbegan⟩

end AccountCensus.Service
