import AccountCensus.Service.Collector
import Mathlib.Data.List.Basic

/-!
# One turn of a loop

`Collector.wake` lets one loop do its next thing. `Turn` lists all the things that this can be,
each with what happens, the phase after it, and whether a fetch was begun; `wake_turn` says that
there are no others, and what becomes of the collector. Nothing after this module opens `wake`
again.

The other loops of a collector notice a turn only through the token, which the fetch that begins
may cancel.
-/

namespace AccountCensus

/-- A tick is served at the first millisecond that is not before it. -/
theorem Duration.ceilMillis_le_iff {d : Duration} {m : ℕ} :
    d.ceilMillis ≤ m ↔ d.nanos ≤ m * Service.nanosPerMilli := by
  unfold Duration.ceilMillis Service.nanosPerMilli
  omega

namespace Service

/-! ## Small changes of a collector -/

/-- The loop sees its token cancelled from now on, if it is. -/
def Loop.told (cancels : Bool) (l : Loop) : Loop :=
  { l with cancelled := l.cancelled || cancels }

@[simp] theorem Loop.told_phase (b : Bool) (l : Loop) : (l.told b).phase = l.phase := rfl

@[simp] theorem Loop.told_cancelled (b : Bool) (l : Loop) :
    (l.told b).cancelled = (l.cancelled || b) := rfl

@[simp] theorem Loop.told_false (l : Loop) : l.told false = l := by
  simp [Loop.told]

@[simp] theorem Loop.told_rank (horizon : ℕ) (b : Bool) (l : Loop) :
    (l.told b).rank horizon = l.rank horizon := rfl

namespace Collector

variable (c : Collector) (k : ℕ) (phase : Phase)

@[simp] theorem setPhase_interval : (c.setPhase k phase).interval = c.interval := rfl

@[simp] theorem setPhase_timeout : (c.setPhase k phase).timeout = c.timeout := rfl

@[simp] theorem setPhase_script : (c.setPhase k phase).script = c.script := rfl

@[simp] theorem setPhase_joinable : (c.setPhase k phase).joinable = c.joinable := rfl

theorem setPhase_getElem? (j : ℕ) :
    (c.setPhase k phase).loops[j]? =
      if j = k then c.loops[j]?.map fun l => { l with phase } else c.loops[j]? := by
  rw [setPhase, List.getElem?_modify]
  by_cases h : j = k
  · simp [h]
  · simp [h, Ne.symm h]

@[simp] theorem cancel_interval : c.cancel.interval = c.interval := rfl

@[simp] theorem cancel_script : c.cancel.script = c.script := rfl

theorem cancel_loops : c.cancel.loops = c.loops.map (Loop.told true) := by
  simp [cancel, Loop.told]

@[simp] theorem start_script (fresh : Bool) : (c.start fresh).script = c.script := rfl

@[simp] theorem beginFetch_interval : c.beginFetch.1.interval = c.interval := by
  unfold beginFetch
  dsimp only
  split <;> rfl

@[simp] theorem beginFetch_timeout : c.beginFetch.1.timeout = c.timeout := by
  unfold beginFetch
  dsimp only
  split <;> rfl

@[simp] theorem beginFetch_joinable : c.beginFetch.1.joinable = c.joinable := by
  unfold beginFetch
  dsimp only
  split <;> rfl

theorem beginFetch_script : c.beginFetch.1.script = c.script.tail := by
  unfold beginFetch
  dsimp only
  split <;> rfl

theorem beginFetch_fetch : c.beginFetch.2 = c.script.headD .beyond := rfl

/-- A fetch that begins may cancel the token; apart from that no loop notices it. -/
theorem beginFetch_loops :
    c.beginFetch.1.loops = c.loops.map (Loop.told c.beginFetch.2.cancels) := by
  rw [beginFetch_fetch]
  unfold beginFetch
  dsimp only
  split
  · rename_i h
    rw [h]
    exact cancel_loops _
  · rename_i h
    have hid : Loop.told (c.script.headD .beyond).cancels = id := by
      rw [Bool.eq_false_iff.mpr h]
      exact funext Loop.told_false
    rw [hid, List.map_id]

end Collector

/-! ## Turns -/

/-- What a live loop can do when it is woken at millisecond `now`, where `f` is what the source
does next: what happens, the phase after it, and whether the fetch was begun. -/
inductive Turn (interval timeout : Duration) (now : ℕ) (f : Fetch) :
    Loop → List Happening → Phase → Bool → Prop
  | panic {l : Loop} : l.phase = .spawned → interval.nanos = 0 →
      Turn interval timeout now f l [.loopStarted interval] .panicked false
  | start {l : Loop} : l.phase = .spawned → interval.nanos ≠ 0 →
      Turn interval timeout now f l [.loopStarted interval] (.waiting (now * nanosPerMilli)) false
  | stop {l : Loop} {due : ℕ} : l.phase = .waiting due → l.cancelled = true →
      Turn interval timeout now f l [.loopStopped] .stopped false
  | serve {l : Loop} {due : ℕ} : l.phase = .waiting due → l.cancelled = false →
      (f.ending timeout).after = 0 →
      Turn interval timeout now f l (.fetchBegan f :: (f.ending timeout).happenings .loop)
        (.waiting (nextDue interval due now)) true
  | fetch {l : Loop} {due : ℕ} : l.phase = .waiting due → l.cancelled = false →
      (f.ending timeout).after ≠ 0 →
      Turn interval timeout now f l [.fetchBegan f]
        (.fetching (nextDue interval due now) (now + (f.ending timeout).after)
          (f.ending timeout)) true
  | abandon {l : Loop} {due finish : ℕ} {e : Ending} : l.phase = .fetching due finish e →
      l.cancelled = true →
      Turn interval timeout now f l [.fetchEnded false, .loopStopped] .stopped false
  | finish {l : Loop} {due finish : ℕ} {e : Ending} : l.phase = .fetching due finish e →
      l.cancelled = false →
      Turn interval timeout now f l (e.happenings .loop) (.waiting due) false

theorem Loop.isLive_of_wakeTime? {now t : ℕ} {l : Loop} (h : l.wakeTime? now = some t) :
    l.isLive = true := by
  unfold Loop.wakeTime? at h
  unfold Loop.isLive
  cases hp : l.phase <;> simp_all

/-- A loop is never woken for a time that has passed. -/
theorem Loop.le_wakeTime? {now t : ℕ} {l : Loop} (h : l.wakeTime? now = some t) : now ≤ t := by
  unfold Loop.wakeTime? at h
  cases hp : l.phase with
  | spawned => simp_all
  | waiting due =>
      rw [hp] at h
      have := Option.some.inj h
      split at this <;> omega
  | fetching due finish e =>
      rw [hp] at h
      have := Option.some.inj h
      split at this <;> omega
  | stopped => simp [hp] at h
  | panicked => simp [hp] at h

theorem Loop.wakeTime?_cancelled {l : Loop} (hlive : l.isLive = true) (hc : l.cancelled = true)
    (now : ℕ) : l.wakeTime? now = some now := by
  unfold isLive at hlive
  unfold wakeTime?
  cases hp : l.phase <;> simp_all

theorem Loop.wakeTime?_waiting {l : Loop} {due : ℕ} (hp : l.phase = .waiting due)
    (hc : l.cancelled = false) (now : ℕ) :
    l.wakeTime? now = some (max now (Duration.mk due).ceilMillis) := by
  simp [wakeTime?, hp, hc]

theorem Loop.wakeTime?_fetching {l : Loop} {due finish : ℕ} {e : Ending}
    (hp : l.phase = .fetching due finish e) (hc : l.cancelled = false) (now : ℕ) :
    l.wakeTime? now = some (max now finish) := by
  simp [wakeTime?, hp, hc]

/-- **A turn is all that `wake` does.** -/
theorem Collector.wake_turn {c : Collector} {k : ℕ} {l : Loop} (hl : c.loops[k]? = some l)
    (hlive : l.isLive = true) (now : ℕ) :
    ∃ hs phase began, Turn c.interval c.timeout now c.beginFetch.2 l hs phase began ∧
      c.wake k now = ((bif began then c.beginFetch.1 else c).setPhase k phase, hs) := by
  unfold Collector.wake
  simp only [hl]
  cases hp : l.phase with
  | spawned =>
      by_cases hz : c.interval.nanos = 0
      · exact ⟨_, _, _, .panic hp hz, by simp [hz]⟩
      · exact ⟨_, _, _, .start hp hz, by simp [hz]⟩
  | waiting due =>
      cases hc : l.cancelled with
      | true => exact ⟨_, _, _, .stop hp hc, by simp⟩
      | false =>
          by_cases ha : (c.beginFetch.2.ending c.timeout).after = 0
          · exact ⟨_, _, _, .serve hp hc ha, by simp [serveTick, ha]⟩
          · exact ⟨_, _, _, .fetch hp hc ha, by simp [serveTick, ha]⟩
  | fetching due finish e =>
      cases hc : l.cancelled with
      | true => exact ⟨_, _, _, .abandon hp hc, by simp⟩
      | false => exact ⟨_, _, _, .finish hp hc, by simp⟩
  | stopped => simp [Loop.isLive, hp] at hlive
  | panicked => simp [Loop.isLive, hp] at hlive

end Service

end AccountCensus
