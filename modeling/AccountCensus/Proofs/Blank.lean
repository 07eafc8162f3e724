import AccountCensus.Proofs.Alone

/-!
# What a collector does not look at

When a collector wakes and which marks it leaves depends on how long its fetches take and whether
they cancel the token, and not on what they answer. `blank` takes the answers out of a collector.
Two collectors that are equal without them keep in step: they turn alike (`Turn.alike`), wake alike
(`Collector.wake_alike`), and leave the same marks in a run of any length (`Runs.alike`).
-/

namespace AccountCensus.Service

/-! ## Without answers -/

/-- Two fetches take equally long, or both never end, and do the same to the token. -/
structure Fetch.SamePace (f g : Fetch) : Prop where
  stalls : f.answer = none ↔ g.answer = none
  delay : f.answer ≠ none → f.delay = g.delay
  cancels : f.cancels = g.cancels

/-- A fetch that takes as long and finds no accounts. -/
def Fetch.blank (f : Fetch) : Fetch :=
  match f.answer with
  | some _ => ⟨some (.ok []), f.delay, f.cancels⟩
  | none => ⟨none, 0, f.cancels⟩

def Ending.blank (e : Ending) : Ending := { e with fetched := .ok [] }

def Phase.blank : Phase → Phase
  | .fetching due finish e => .fetching due finish e.blank
  | phase => phase

def Loop.blank (l : Loop) : Loop := { l with phase := l.phase.blank }

def Collector.blank (x : Collector) : Collector :=
  { x with script := x.script.map Fetch.blank, loops := x.loops.map Loop.blank }

theorem Fetch.SamePace.blank {f g : Fetch} (h : f.SamePace g) : f.blank = g.blank := by
  obtain ⟨hstalls, hdelay, hcancels⟩ := h
  unfold Fetch.blank
  cases hf : f.answer with
  | none => rw [hstalls.mp hf, hcancels]
  | some fetched =>
      cases hg : g.answer with
      | none => rw [hstalls.mpr hg] at hf; cases hf
      | some fetched' => rw [hdelay (by simp [hf]), hcancels]

@[simp] theorem Fetch.blank_cancels (f : Fetch) : f.blank.cancels = f.cancels := by
  unfold blank
  split <;> rfl

/-- How a fetch ends, apart from its answer, can be told without the answer. -/
theorem Fetch.ending_blank (timeout : Duration) (f : Fetch) :
    (f.blank.ending timeout).blank = (f.ending timeout).blank := by
  unfold ending Fetch.blank
  cases f.answer with
  | none => rfl
  | some fetched =>
      dsimp only
      split <;> rfl

@[simp] theorem Loop.blank_wakeTime? (now : ℕ) (l : Loop) :
    l.blank.wakeTime? now = l.wakeTime? now := by
  unfold wakeTime? Loop.blank
  cases l.phase <;> rfl

@[simp] theorem Loop.blank_isLive (l : Loop) : l.blank.isLive = l.isLive := by
  unfold isLive Loop.blank
  cases l.phase <;> rfl

namespace Collector

variable (x : Collector)

theorem blank_next? (now : ℕ) : x.blank.next? now = x.next? now := by
  have hamong : ∀ (ls : List Loop) (k : ℕ),
      nextAmong now k (ls.map Loop.blank) = nextAmong now k ls := by
    intro ls
    induction ls with
    | nil => exact fun _ => rfl
    | cons l ls ih =>
        intro k
        rw [List.map_cons, nextAmong, nextAmong, ih, Loop.blank_wakeTime?]
  exact hamong x.loops 0

theorem blank_isRunning : x.blank.isRunning = x.isRunning := by
  have hloop : ∀ k : ℕ, (x.blank.loops[k]?).any Loop.isLive = (x.loops[k]?).any Loop.isLive := by
    intro k
    show ((x.loops.map Loop.blank)[k]?).any Loop.isLive = _
    rw [List.getElem?_map]
    cases x.loops[k]? <;> simp
  show (x.joinable.bind fun k => x.blank.loops[k]?).any Loop.isLive = _
  unfold isRunning joined?
  cases x.joinable with
  | none => rfl
  | some k => exact hloop k

theorem blank_setPhase (k : ℕ) (phase : Phase) :
    (x.setPhase k phase).blank = x.blank.setPhase k phase.blank := by
  simp only [setPhase, blank, Collector.mk.injEq, true_and, and_true]
  apply List.ext_getElem?
  intro j
  rw [List.getElem?_map, List.getElem?_modify, List.getElem?_modify, List.getElem?_map]
  cases x.loops[j]? with
  | none => rfl
  | some l => by_cases h : k = j <;> simp [h, Loop.blank]

theorem blank_cancel : x.cancel.blank = x.blank.cancel := by
  simp [cancel, blank, Loop.blank]

theorem blank_start (fresh : Bool) : (x.start fresh).blank = x.blank.start fresh := by
  simp [start, blank, Loop.blank, Phase.blank]

theorem blank_beginFetch :
    x.beginFetch.1.blank = x.blank.beginFetch.1 ∧ x.beginFetch.2.blank = x.blank.beginFetch.2 := by
  have hfetch : x.beginFetch.2.blank = x.blank.beginFetch.2 := by
    show (x.script.headD .beyond).blank = (x.script.map Fetch.blank).headD .beyond
    cases x.script <;> rfl
  refine ⟨?_, hfetch⟩
  unfold beginFetch at hfetch ⊢
  dsimp only at hfetch ⊢
  rw [← hfetch, Fetch.blank_cancels]
  split
  · rw [blank_cancel]
    simp [blank]
  · simp [blank]

end Collector

/-! ## In step -/

/-- An ending marks what it is, and its answer leaves no mark. -/
theorem Ending.marks_happenings {e e' : Ending} (h : e.blank = e'.blank)
    (driver driver' : Census.Driver) :
    (e.happenings driver).filterMap Happening.mark? =
      (e'.happenings driver').filterMap Happening.mark? := by
  have hanswered : e.answered = e'.answered := congrArg (·.answered) h
  unfold happenings
  rw [hanswered]
  cases e'.answered <;> rfl

/-- **Loops that are alike turn alike.** -/
theorem Turn.alike {interval timeout : Duration} {now : ℕ} {f g : Fetch} {l m : Loop}
    {hs hs' : List Happening} {phase phase' : Phase} {began began' : Bool}
    (h : Turn interval timeout now f l hs phase began)
    (h' : Turn interval timeout now g m hs' phase' began') (hf : f.blank = g.blank)
    (hl : l.blank = m.blank) :
    began = began' ∧ phase.blank = phase'.blank ∧
      hs.filterMap Happening.mark? = hs'.filterMap Happening.mark? := by
  have hphase : l.phase.blank = m.phase.blank := congrArg (·.phase) hl
  have hcancelled : l.cancelled = m.cancelled := congrArg (·.cancelled) hl
  have hending : (f.ending timeout).blank = (g.ending timeout).blank := by
    rw [← f.ending_blank, hf, g.ending_blank]
  have hafter : (f.ending timeout).after = (g.ending timeout).after := congrArg (·.after) hending
  have hmarks := Ending.marks_happenings hending .loop .loop
  -- the phase and the token leave one kind of turn to the second loop, that of the first
  cases h with
  | finish hp hc =>
      cases h' with
      | finish hp' hc' =>
          rw [hp, hp'] at hphase
          obtain ⟨rfl, -, he⟩ := Phase.fetching.inj hphase
          exact ⟨rfl, rfl, Ending.marks_happenings he .loop .loop⟩
      | _ => simp_all [Phase.blank]
  | _ => cases h' <;> simp_all [Phase.blank, Happening.mark?]

/-- **Collectors that are alike wake alike.** -/
theorem Collector.wake_alike {x y : Collector} {now t k : ℕ} (hxy : x.blank = y.blank)
    (h : x.next? now = some (t, k)) :
    (x.wake k t).1.blank = (y.wake k t).1.blank ∧
      marksAt t (x.wake k t).2 = marksAt t (y.wake k t).2 := by
  have hy : y.next? now = some (t, k) := by
    rw [← blank_next?, ← hxy, blank_next?, h]
  obtain ⟨l, hl, hlive⟩ := next?_sound h
  obtain ⟨m, hm, hmlive⟩ := next?_sound hy
  have hlm : l.blank = m.blank := by
    have hloops : x.blank.loops[k]? = y.blank.loops[k]? := by rw [hxy]
    simpa [blank, hl, hm] using hloops
  have hbegin : x.beginFetch.1.blank = y.beginFetch.1.blank ∧
      x.beginFetch.2.blank = y.beginFetch.2.blank := by
    rw [x.blank_beginFetch.1, x.blank_beginFetch.2, hxy, y.blank_beginFetch.1,
      y.blank_beginFetch.2]
    exact ⟨rfl, rfl⟩
  have hinterval : y.interval = x.interval := congrArg (·.interval) hxy.symm
  have htimeout : y.timeout = x.timeout := congrArg (·.timeout) hxy.symm
  obtain ⟨hs, phase, began, hturn, hwake⟩ := wake_turn hl (Loop.isLive_of_wakeTime? hlive) t
  obtain ⟨hs', phase', began', hturn', hwake'⟩ :=
    wake_turn hm (Loop.isLive_of_wakeTime? hmlive) t
  rw [hinterval, htimeout] at hturn'
  obtain ⟨rfl, hphase, hmarks⟩ := hturn.alike hturn' hbegin.2 hlm
  rw [hwake, hwake', marksAt, marksAt, hmarks]
  refine ⟨?_, rfl⟩
  rw [blank_setPhase, blank_setPhase, hphase]
  cases began with
  | false => exact congrArg (·.setPhase k phase'.blank) hxy
  | true => exact congrArg (·.setPhase k phase'.blank) hbegin.1

/-- **Collectors that are alike run alike**, and leave the same marks. -/
theorem Runs.alike {deadline now : ℕ} {x x' y y' : Collector} {ms ms' : List (ℕ × Mark)}
    (h : Runs deadline now x ms y) (h' : Runs deadline now x' ms' y') (hx : x.blank = x'.blank) :
    ms = ms' ∧ y.blank = y'.blank := by
  induction h generalizing x' ms' with
  | rest hrest =>
      cases h' with
      | rest _ => exact ⟨rfl, hx⟩
      | wake hnext hlt _ =>
          rw [← Collector.blank_next?, ← hx, Collector.blank_next?] at hnext
          exact absurd (hrest _ _ hnext) (not_le.mpr hlt)
  | wake hnext hlt _ ih =>
      have hnext' := hnext
      rw [← Collector.blank_next?, hx, Collector.blank_next?] at hnext'
      cases h' with
      | rest hrest => exact absurd (hrest _ _ hnext') (not_le.mpr hlt)
      | wake hother _ hruns =>
          obtain ⟨rfl, rfl⟩ := Prod.mk.inj (Option.some.inj (hnext'.symm.trans hother))
          obtain ⟨hwake, hmarks⟩ := Collector.wake_alike hx hnext
          obtain ⟨rfl, hy⟩ := ih hruns hwake
          exact ⟨by rw [hmarks], hy⟩

end AccountCensus.Service
