import AccountCensus.Proofs.Cadence
import AccountCensus.Proofs.Cancellation

/-!
# The course of a loop

What is noted of a loop is one whole pass after the other, and at its end at most one pass that was
given up. `Course` says so, and ties it to the phase; `course_of_life` is its invariant. The
censuses in the foreground of a collector are whole passes and nothing else (`Requested`).

What either tells of the ends of passes is the same (`Coherent`): a fetch that ends is the one that
was noted just before, and a census ends together with its fetch, as that fetch says.
-/

namespace AccountCensus.Service

/-! ## Passes -/

/-- What is noted of a pass that began at `t` and ended by itself, latest entry first. -/
def wholePass (timeout : Duration) (driver : Census.Driver) (t : ℕ) (f : Fetch) :
    List (ℕ × Happening) :=
  [(t + (f.ending timeout).after, .censusEnded driver (f.ending timeout).fetched),
    (t + (f.ending timeout).after, .fetchEnded (f.ending timeout).answered), (t, .fetchBegan f)]

/-- A loop that has come to this phase has left this trace. -/
inductive Course (interval timeout : Duration) : Phase → List (ℕ × Happening) → Prop
  | spawned : Course interval timeout .spawned []
  | panicked {t : ℕ} : Course interval timeout .panicked [(t, .loopStarted interval)]
  | started {t due : ℕ} : Course interval timeout (.waiting due) [(t, .loopStarted interval)]
  | passed {t due due' : ℕ} {f : Fetch} {tr : List (ℕ × Happening)} :
      Course interval timeout (.waiting due) tr →
      Course interval timeout (.waiting due') (wholePass timeout .loop t f ++ tr)
  | fetching {t due due' : ℕ} {f : Fetch} {tr : List (ℕ × Happening)} :
      Course interval timeout (.waiting due) tr →
      Course interval timeout
        (.fetching due' (t + (f.ending timeout).after) (f.ending timeout))
        ((t, .fetchBegan f) :: tr)
  | stopped {t due : ℕ} {tr : List (ℕ × Happening)} :
      Course interval timeout (.waiting due) tr →
      Course interval timeout .stopped ((t, .loopStopped) :: tr)
  | gaveUp {t b due : ℕ} {f : Fetch} {tr : List (ℕ × Happening)} :
      Course interval timeout (.waiting due) tr →
      Course interval timeout .stopped
        ((t, .loopStopped) :: (t, .fetchEnded false) :: (b, .fetchBegan f) :: tr)

/-- **A turn takes the course one step further**, if a fetch that ends by itself ends on time. -/
theorem Course.turn {interval timeout : Duration} {now : ℕ} {g : Fetch} {l : Loop}
    {hs : List Happening} {phase : Phase} {began : Bool} {tr : List (ℕ × Happening)}
    (h : Course interval timeout l.phase tr)
    (hturn : Turn interval timeout now g l hs phase began)
    (hnow : ∀ due finish e, l.phase = .fetching due finish e → l.cancelled = false →
      now = finish) :
    Course interval timeout phase ((hs.map (now, ·)).reverse ++ tr) := by
  cases hturn with
  | panic hp _ =>
      rw [hp] at h
      cases h
      exact .panicked
  | start hp _ =>
      rw [hp] at h
      cases h
      exact .started
  | stop hp _ =>
      rw [hp] at h
      exact h.stopped
  | @serve due hp _ ha =>
      rw [hp] at h
      have hpass : Course interval timeout (.waiting (nextDue interval due now))
          (wholePass timeout .loop now g ++ tr) := h.passed
      rw [wholePass, ha] at hpass
      exact hpass
  | fetch hp _ _ =>
      rw [hp] at h
      exact h.fetching
  | abandon hp _ =>
      rw [hp] at h
      cases h with
      | fetching h => exact h.gaveUp
  | finish hp hc =>
      obtain rfl := hnow _ _ _ hp hc
      rw [hp] at h
      cases h with
      | fetching h => exact h.passed

/-- **Every loop keeps its course.** -/
theorem course_of_life {interval timeout : Duration} {v : View} (h : Life interval timeout v) :
    Course interval timeout v.loop.phase v.trace := by
  refine (life_induction (P := fun v => Life interval timeout v ∧
    Course interval timeout v.loop.phase v.trace) ?_ ?_ h).2
  · intro now cancelled
    exact ⟨⟨now, cancelled, .refl⟩, .spawned⟩
  · rintro v v' hchange ⟨hlife, ih⟩
    refine ⟨hlife.trans (.single hchange), ?_⟩
    cases hchange with
    | idle hidle =>
        rw [hidle.phase, hidle.trace]
        exact ih
    | turn hwake hturn =>
        refine ih.turn hturn fun due finish e hp hc => ?_
        have hmax := Option.some.inj ((Loop.wakeTime?_fetching hp hc v.now).symm.trans hwake)
        have hle := (hlife.inFlight due finish e hp).inTime hc
        omega

/-- A loop that ticks ends only if its token was cancelled. -/
theorem cancelled_of_ended {interval timeout : Duration} {v : View} (h : Life interval timeout v)
    (hfits : v.loop.phase.Fits interval) (hz : interval.nanos ≠ 0)
    (hended : v.loop.isLive = false) : v.loop.cancelled = true := by
  have hstopped := phase_of_not_live hfits hz (by simp [hended])
  rcases regular_of_life h with ⟨hspawned, -⟩ | ⟨start, hregular⟩
  · rw [hspawned] at hstopped
    cases hstopped
  · exact hregular.stopped hstopped

/-! ## The ends of passes -/

/-- What an entry at time `t` says about a pass that ends is true of the entries before it. -/
def Tells (timeout : Duration) (inLoop : Bool) (t : ℕ) (older : List (ℕ × Happening)) :
    Happening → Prop
  | .fetchEnded answered => ∃ b f older', older = (b, .fetchBegan f) :: older' ∧
      (answered = true → f.answer ≠ none ∧ t = b + f.delay)
  | .censusEnded driver fetched => (driver = .loop ↔ inLoop = true) ∧ ∃ b f older',
      older = (t, .fetchEnded (f.ending timeout).answered) :: (b, .fetchBegan f) :: older' ∧
      t = b + (f.ending timeout).after ∧ fetched = (f.ending timeout).fetched
  | _ => True

/-- Every entry of a trace tells the truth. -/
def Coherent (timeout : Duration) (inLoop : Bool) : List (ℕ × Happening) → Prop
  | [] => True
  | (t, h) :: older => Tells timeout inLoop t older h ∧ Coherent timeout inLoop older

section Coherent

variable {timeout : Duration} {inLoop : Bool} {tr newer old : List (ℕ × Happening)} {t : ℕ}

theorem Coherent.older (htr : Coherent timeout inLoop (newer ++ old)) :
    Coherent timeout inLoop old := by
  induction newer with
  | nil => exact htr
  | cons e newer ih => exact ih htr.2

theorem Coherent.tells {h : Happening}
    (htr : Coherent timeout inLoop (newer ++ (t, h) :: old)) :
    Tells timeout inLoop t old h :=
  htr.older.1

theorem Coherent.pass {driver : Census.Driver} (hdriver : driver = .loop ↔ inLoop = true)
    (htr : Coherent timeout inLoop tr) (t : ℕ) (f : Fetch) :
    Coherent timeout inLoop (wholePass timeout driver t f ++ tr) := by
  refine ⟨⟨hdriver, t, f, tr, rfl, rfl, rfl⟩, ⟨t, f, tr, rfl, fun ha => ?_⟩, trivial, htr⟩
  obtain ⟨hanswer, hafter⟩ := Fetch.ending_answered ha
  exact ⟨hanswer, by rw [hafter]⟩

theorem Course.coherent {interval : Duration} {phase : Phase}
    (h : Course interval timeout phase tr) : Coherent timeout true tr := by
  induction h with
  | spawned => trivial
  | panicked => exact ⟨trivial, trivial⟩
  | started => exact ⟨trivial, trivial⟩
  | passed _ ih => exact ih.pass (by simp) _ _
  | fetching _ ih => exact ⟨trivial, ih⟩
  | stopped _ ih => exact ⟨trivial, ih⟩
  | gaveUp _ ih => exact ⟨trivial, ⟨_, _, _, rfl, fun h => by cases h⟩, trivial, ih⟩

end Coherent

theorem trace_cons_self (r : Record) (records : List Record) :
    trace r.collector r.loop (r :: records) =
      (r.time, r.happening) :: trace r.collector r.loop records := by
  simp [trace]

/-- The censuses in the foreground of a collector: whole passes. -/
inductive Requested (timeout : Duration) : List (ℕ × Happening) → Prop
  | nil : Requested timeout []
  | pass {driver : Census.Driver} {t : ℕ} {f : Fetch} {tr : List (ℕ × Happening)} :
      driver ≠ .loop → Requested timeout tr →
      Requested timeout (wholePass timeout driver t f ++ tr)

theorem Requested.coherent {timeout : Duration} {tr : List (ℕ × Happening)}
    (h : Requested timeout tr) : Coherent timeout false tr := by
  induction h with
  | nil => trivial
  | pass hdriver _ ih => exact ih.pass (by simp [hdriver]) _ _

end AccountCensus.Service
