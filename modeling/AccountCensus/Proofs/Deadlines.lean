import AccountCensus.Proofs.Lateness

/-!
# The time-out of a fetch is exact

Of a fetch that began at millisecond `t` everything is decided there and then: if its answer comes
by the time-out, rounded up to a millisecond, the pass ends with that answer when it comes, and
otherwise with a time-out at that very millisecond. Only the token can end the pass of a loop
earlier. `Fate` lists what there can be to see of this at any moment of a run.

For loops it is read off their course (`Course.fate`), and that the clock does not get past the
end of a fetch off their life (`Life.inTime`); for the foreground it is read off the one pass that
a command adds (`foreground_fate`). Moments are taken between any two steps, in the middle of a
command too, where other loops have their turns while a census waits.
-/

namespace AccountCensus.Service

open Relation

/-! ## Moments and fates -/

/-- A state that the service comes through while it carries out a command. -/
def Moment (s : Service) (command : Command) (m : Service) : Prop :=
  ReflTransGen Step s m ∧ ReflTransGen Step m (s.perform command).1

/-- The trace is one of a loop, and the loop has seen its token cancelled. -/
def IsCancelled (s : Service) (c : ℕ) (loop : Option ℕ) : Prop :=
  ∃ k x l, loop = some k ∧ s.collectors[c]? = some x ∧ x.loops[k]? = some l ∧ l.cancelled = true

/-- After a pass another fetch begins or the loop stops: the pass has not ended twice. -/
def GoesOn (rest : List (ℕ × Happening)) : Prop :=
  ∀ t h, rest.head? = some (t, h) → h = .loopStopped ∨ ∃ f, h = .fetchBegan f

/-- What has become by now of a fetch that began at `t`, told by what was noted since of the same
loop, or of the foreground, first things first. -/
inductive Fate (timeout : Duration) (inLoop : Bool) (cancelled : Prop) (now t : ℕ) (f : Fetch) :
    List (ℕ × Happening) → Prop
  /-- It has not ended, and is not overdue. -/
  | inFlight : now ≤ t + timeout.ceilMillis → (∀ a, f.answer = some a → now ≤ t + f.delay) →
      Fate timeout inLoop cancelled now t f []
  /-- The answer came in time, and the pass ended with it. -/
  | answered {a : Fetched} {driver : Census.Driver} {rest : List (ℕ × Happening)} :
      f.answer = some a → f.delay ≤ timeout.ceilMillis → (driver = .loop ↔ inLoop = true) →
      GoesOn rest →
      Fate timeout inLoop cancelled now t f
        ((t + f.delay, .fetchEnded true) :: (t + f.delay, .censusEnded driver a) :: rest)
  /-- No answer came in time, and the pass ended with the time-out as it is configured. -/
  | timedOut {driver : Census.Driver} {rest : List (ℕ × Happening)} :
      (∀ a, f.answer = some a → timeout.ceilMillis < f.delay) →
      (driver = .loop ↔ inLoop = true) → GoesOn rest →
      Fate timeout inLoop cancelled now t f
        ((t + timeout.ceilMillis, .fetchEnded false) ::
          (t + timeout.ceilMillis, .censusEnded driver (.error (.timeout timeout))) :: rest)
  /-- The token was cancelled first, and the loop has stopped. -/
  | gaveUp {e : ℕ} : cancelled → t ≤ e → e ≤ t + timeout.ceilMillis →
      Fate timeout inLoop cancelled now t f [(e, .fetchEnded false), (e, .loopStopped)]

theorem Fetch.after_le (timeout : Duration) (f : Fetch) :
    (f.ending timeout).after ≤ timeout.ceilMillis ∧
      ∀ a, f.answer = some a → (f.ending timeout).after ≤ f.delay := by
  rcases f.ending_inTime_or_late timeout with ⟨a, -, hle, hending⟩ | ⟨hlate, hending⟩
  · rw [hending]
    exact ⟨hle, fun _ _ => le_rfl⟩
  · rw [hending]
    exact ⟨le_rfl, fun a ha => (hlate a ha).le⟩

theorem Fate.of_inFlight {timeout : Duration} {inLoop : Bool} {cancelled : Prop} {now t : ℕ}
    {f : Fetch} (h : now ≤ t + (f.ending timeout).after) :
    Fate timeout inLoop cancelled now t f [] := by
  obtain ⟨htimeout, hanswer⟩ := f.after_le timeout
  refine .inFlight (by omega) fun a ha => ?_
  have := hanswer a ha
  omega

theorem Fate.imp {timeout : Duration} {inLoop : Bool} {cancelled cancelled' : Prop} {now t : ℕ}
    {f : Fetch} {since : List (ℕ × Happening)} (h : Fate timeout inLoop cancelled now t f since)
    (hcancelled : cancelled → cancelled') : Fate timeout inLoop cancelled' now t f since := by
  cases h with
  | inFlight htimeout hanswer => exact .inFlight htimeout hanswer
  | answered ha hle hdriver hrest => exact .answered ha hle hdriver hrest
  | timedOut hlate hdriver hrest => exact .timedOut hlate hdriver hrest
  | gaveUp hc hle hin => exact .gaveUp (hcancelled hc) hle hin

/-! ## Passes that have ended by themselves -/

theorem GoesOn.append {rest more : List (ℕ × Happening)} (h : GoesOn rest) (h' : GoesOn more) :
    GoesOn (rest ++ more) := by
  cases rest with
  | nil => exact h'
  | cons e rest => exact h

theorem goesOn_nil : GoesOn [] := by
  intro t h hhead
  cases hhead

theorem goesOn_began (t : ℕ) (f : Fetch) (rest : List (ℕ × Happening)) :
    GoesOn ((t, .fetchBegan f) :: rest) := by
  intro u h hhead
  obtain ⟨-, rfl⟩ := Prod.mk.inj (Option.some.inj hhead)
  exact .inr ⟨f, rfl⟩

theorem goesOn_stopped (t : ℕ) : GoesOn [(t, .loopStopped)] := by
  intro u h hhead
  obtain ⟨-, rfl⟩ := Prod.mk.inj (Option.some.inj hhead)
  exact .inl rfl

/-- The pass of a fetch that began at `t` has ended by itself, once. -/
def Concluded (timeout : Duration) (inLoop : Bool) (t : ℕ) (f : Fetch)
    (since : List (ℕ × Happening)) : Prop :=
  ∃ driver rest, (driver = .loop ↔ inLoop = true) ∧ GoesOn rest ∧
    since = ((f.ending timeout).happenings driver).map (t + (f.ending timeout).after, ·) ++ rest

/-- No pass of the trace is under way, and none was given up. -/
def AllConcluded (timeout : Duration) (inLoop : Bool) (tr : List (ℕ × Happening)) : Prop :=
  ∀ newer t f older, tr = newer ++ (t, .fetchBegan f) :: older →
    Concluded timeout inLoop t f newer.reverse

/-- The beginnings of fetches in a trace that begins with one. -/
theorem split_began {b t : ℕ} {g f : Fetch} {tr newer older : List (ℕ × Happening)}
    (h : (b, .fetchBegan g) :: tr = newer ++ (t, .fetchBegan f) :: older) :
    (newer = [] ∧ b = t ∧ g = f) ∨
      ∃ newer', newer = (b, .fetchBegan g) :: newer' ∧
        tr = newer' ++ (t, .fetchBegan f) :: older := by
  rcases List.cons_eq_append_iff.mp h with ⟨rfl, hcons⟩ | ⟨newer', rfl, htr⟩
  · obtain ⟨hfirst, -⟩ := List.cons_eq_cons.mp hcons
    obtain ⟨rfl, hfetch⟩ := Prod.mk.inj hfirst
    exact .inl ⟨rfl, rfl, (Happening.fetchBegan.inj hfetch).symm⟩
  · exact .inr ⟨newer', rfl, htr⟩

section Concluded

variable {timeout : Duration} {inLoop : Bool} {t : ℕ} {f : Fetch}
  {since tr : List (ℕ × Happening)}

theorem Concluded.append {more : List (ℕ × Happening)} (h : Concluded timeout inLoop t f since)
    (hmore : GoesOn more) : Concluded timeout inLoop t f (since ++ more) := by
  obtain ⟨driver, rest, hdriver, hrest, rfl⟩ := h
  exact ⟨driver, rest ++ more, hdriver, hrest.append hmore, List.append_assoc ..⟩

/-- **A pass that has ended by itself ended with its answer, or with the time-out.** -/
theorem Concluded.fate {cancelled : Prop} {now : ℕ} (h : Concluded timeout inLoop t f since) :
    Fate timeout inLoop cancelled now t f since := by
  obtain ⟨driver, rest, hdriver, hrest, rfl⟩ := h
  rcases f.ending_inTime_or_late timeout with ⟨a, ha, hle, hending⟩ | ⟨hlate, hending⟩
  · rw [hending]
    exact .answered ha hle hdriver hrest
  · rw [hending]
    exact .timedOut hlate hdriver hrest

theorem AllConcluded.nil : AllConcluded timeout inLoop [] := by
  intro newer t f older htr
  simp at htr

/-- What begins no fetch and follows passes well. -/
theorem AllConcluded.cons {h : Happening} (htr : AllConcluded timeout inLoop tr)
    (hgoes : GoesOn [(t, h)]) (hfetch : h.fetch? = none) :
    AllConcluded timeout inLoop ((t, h) :: tr) := by
  intro newer b g older hsplit
  have hnote : ([h].map (t, ·)).reverse ++ tr = newer ++ (b, .fetchBegan g) :: older := hsplit
  obtain ⟨newer', rfl, hold⟩ := split_notes (by simpa using hfetch) hnote
  have hconcluded := (htr newer' b g older hold).append hgoes
  simpa using hconcluded

/-- One more whole pass. -/
theorem AllConcluded.pass {driver : Census.Driver} (htr : AllConcluded timeout inLoop tr)
    (hdriver : driver = .loop ↔ inLoop = true) (b : ℕ) (g : Fetch) :
    AllConcluded timeout inLoop (wholePass timeout driver b g ++ tr) := by
  intro newer t f older hsplit
  have hnotes : (((g.ending timeout).happenings driver).map
      (b + (g.ending timeout).after, ·)).reverse ++ (b, .fetchBegan g) :: tr =
        newer ++ (t, .fetchBegan f) :: older := hsplit
  obtain ⟨newer', rfl, hbegan⟩ :=
    split_notes (by simp [Ending.happenings, Happening.fetch?]) hnotes
  rw [List.reverse_append, List.reverse_reverse]
  rcases split_began hbegan with ⟨rfl, rfl, rfl⟩ | ⟨newer'', rfl, hold⟩
  · refine ⟨driver, [], hdriver, goesOn_nil, ?_⟩
    rw [List.reverse_nil, List.nil_append, List.append_nil]
  · rw [List.reverse_cons, List.append_assoc]
    exact (htr newer'' t f older hold).append (goesOn_began b g _)

end Concluded

theorem Requested.concluded {timeout : Duration} {tr : List (ℕ × Happening)}
    (h : Requested timeout tr) : AllConcluded timeout false tr := by
  induction h with
  | nil => exact .nil
  | pass hdriver _ ih => exact ih.pass (by simp [hdriver]) _ _

/-! ## Loops -/

section Course

variable {interval timeout : Duration} {phase : Phase} {tr : List (ℕ × Happening)}

theorem started_ne {b t : ℕ} {f : Fetch} {newer older : List (ℕ × Happening)} :
    [(b, .loopStarted interval)] ≠ newer ++ (t, .fetchBegan f) :: older := by
  intro h
  rcases List.cons_eq_append_iff.mp h with ⟨-, hcons⟩ | ⟨newer', -, hnil⟩
  · cases hcons
  · simp at hnil

/-- Between passes all of them have ended by themselves. -/
theorem Course.concluded (h : Course interval timeout phase tr) :
    ∀ due, phase = .waiting due → AllConcluded timeout true tr := by
  induction h with
  | started => exact fun _ _ newer t f older hsplit => absurd hsplit started_ne
  | passed _ ih => exact fun _ _ => (ih _ rfl).pass (by simp) _ _
  | _ => exact fun _ hp => by cases hp

/-- **Where a pass of a loop stands**: it has ended by itself, or its fetch is in flight, or the
loop has given it up and stopped. -/
theorem Course.fate (h : Course interval timeout phase tr) {newer older : List (ℕ × Happening)}
    {t : ℕ} {f : Fetch} (htr : tr = newer ++ (t, .fetchBegan f) :: older) :
    Concluded timeout true t f newer.reverse ∨
      (newer = [] ∧ ∃ due,
        phase = .fetching due (t + (f.ending timeout).after) (f.ending timeout)) ∨
      (phase = .stopped ∧ ∃ e, newer = [(e, .loopStopped), (e, .fetchEnded false)]) := by
  have hcourse := h
  cases h with
  | spawned => simp at htr
  | panicked => exact absurd htr started_ne
  | started => exact .inl (hcourse.concluded _ rfl newer t f older htr)
  | passed _ => exact .inl (hcourse.concluded _ rfl newer t f older htr)
  | fetching hbefore =>
      rcases split_began htr with ⟨rfl, rfl, rfl⟩ | ⟨newer', rfl, hold⟩
      · exact .inr (.inl ⟨rfl, _, rfl⟩)
      · left
        rw [List.reverse_cons]
        exact (hbefore.concluded _ rfl newer' t f older hold).append (goesOn_began _ _ _)
  | stopped hbefore =>
      exact .inl ((hbefore.concluded _ rfl).cons (goesOn_stopped _) rfl newer t f older htr)
  | @gaveUp e b due g tr hbefore =>
      have hnotes : ([Happening.fetchEnded false, .loopStopped].map (e, ·)).reverse ++
          (b, .fetchBegan g) :: tr = newer ++ (t, .fetchBegan f) :: older := htr
      obtain ⟨newer', rfl, hbegan⟩ := split_notes (by simp [Happening.fetch?]) hnotes
      rcases split_began hbegan with ⟨rfl, rfl, rfl⟩ | ⟨newer'', rfl, hold⟩
      · exact .inr (.inr ⟨rfl, e, rfl⟩)
      · left
        rw [List.reverse_append, List.reverse_reverse, List.reverse_cons, List.append_assoc]
        exact (hbefore.concluded _ rfl newer'' t f older hold).append (goesOn_began _ _ _)

end Course

section Life

variable {interval timeout : Duration} {v : View}

/-- **The clock does not get past the end of a fetch**, whether its loop is cancelled or not. -/
theorem Life.inTime (h : Life interval timeout v) :
    ∀ due finish e, v.loop.phase = .fetching due finish e → v.now ≤ finish := by
  refine life_induction (P := fun v => ∀ due finish e, v.loop.phase = .fetching due finish e →
    v.now ≤ finish) ?_ ?_ h
  · intro now cancelled due finish e hp
    cases hp
  · intro v v' hchange ih due finish e hp
    cases hchange with
    | idle hidle =>
        rw [hidle.phase] at hp
        have hbefore := ih due finish e hp
        cases hidle with
        | elapse _ hwake =>
            -- a cancelled loop wakes at once
            cases hc : v.loop.cancelled with
            | true =>
                have hlive : v.loop.isLive = true := by simp [Loop.isLive, hp]
                exact (hwake _ (Loop.wakeTime?_cancelled hlive hc v.now)).trans hbefore
            | false =>
                exact (hwake _ (Loop.wakeTime?_fetching hp hc v.now)).trans (max_le hbefore le_rfl)
        | told b => exact hbefore
    | turn _ hturn =>
        cases hturn with
        | fetch _ _ _ =>
            obtain ⟨-, rfl, -⟩ := Phase.fetching.inj hp
            exact Nat.le_add_right ..
        | _ => cases hp

/-- A pass that was given up was given up while its fetch was in flight. -/
theorem Life.gaveUp (h : Life interval timeout v) :
    ∀ e b f old,
      v.trace = (e, .loopStopped) :: (e, .fetchEnded false) :: (b, .fetchBegan f) :: old →
        b ≤ e ∧ e ≤ b + (f.ending timeout).after := by
  refine (life_induction (P := fun v => Life interval timeout v ∧ ∀ e b f old,
    v.trace = (e, .loopStopped) :: (e, .fetchEnded false) :: (b, .fetchBegan f) :: old →
      b ≤ e ∧ e ≤ b + (f.ending timeout).after) ?_ ?_ h).2
  · intro now cancelled
    refine ⟨⟨now, cancelled, .refl⟩, fun e b f old htr => ?_⟩
    cases htr
  · rintro v v' hchange ⟨hlife, ih⟩
    refine ⟨hlife.trans (.single hchange), fun e b f old htr => ?_⟩
    cases hchange with
    | idle hidle =>
        rw [hidle.trace] at htr
        exact ih e b f old htr
    | turn _ hturn =>
        cases hturn with
        | stop hp _ =>
            -- a loop that waits for a tick has no fetch that was given up behind it
            have hcourse := course_of_life hlife
            obtain ⟨-, htr'⟩ := List.cons_eq_cons.mp htr
            rw [hp, show v.trace = _ from htr'] at hcourse
            cases hcourse
        | @abandon due finish e' hp _ =>
            obtain ⟨⟨t, g, old', htrace, rfl, rfl, ht⟩, -⟩ := hlife.inFlight due finish e' hp
            have hin := hlife.inTime _ _ _ hp
            simp only [View.turned, htrace, List.map_cons, List.map_nil, List.reverse_cons,
              List.reverse_nil, List.nil_append, List.cons_append, List.cons.injEq, Prod.mk.injEq,
              Happening.fetchBegan.injEq, and_true] at htr
            obtain ⟨rfl, -, ⟨rfl, rfl⟩, -⟩ := htr
            exact ⟨ht, hin⟩
        | _ => simp [View.turned, Ending.happenings] at htr

/-- **The fate of the fetches of a loop.** -/
theorem Life.fate (h : Life interval timeout v) {newer older : List (ℕ × Happening)} {t : ℕ}
    {f : Fetch} (htr : v.trace = newer ++ (t, .fetchBegan f) :: older) :
    Fate timeout true (v.loop.cancelled = true) v.now t f newer.reverse := by
  rcases (course_of_life h).fate htr with hended | ⟨rfl, due, hp⟩ | ⟨hp, e, rfl⟩
  · exact hended.fate
  · exact .of_inFlight (h.inTime _ _ _ hp)
  · have hcancelled : v.loop.cancelled = true := by
      rcases regular_of_life h with ⟨hspawned, -⟩ | ⟨start, hregular⟩
      · rw [hspawned] at hp
        cases hp
      · exact hregular.stopped hp
    obtain ⟨hle, hin⟩ := h.gaveUp e t f older htr
    have := (f.after_le timeout).1
    exact .gaveUp hcancelled hle (by omega)

end Life

/-! ## The foreground -/

/-- The end of a fetch is not noted without the end of its census. -/
def Unbroken (tr : List (ℕ × Happening)) : Prop :=
  ∀ t answered old, tr ≠ (t, .fetchEnded answered) :: old

theorem Step.unbroken {s s' : Service} (h : Step s s') {c : ℕ}
    (hs : Unbroken (trace c none s.history)) : Unbroken (trace c none s'.history) := by
  cases h with
  | act h =>
      cases h with
      | start fresh hx hready => rwa [rouse_history]
      | cancel hx => rwa [rouse_history]
      | forget d => exact hs
      | @begin d x hx =>
          rw [beginCensus_history]
          by_cases hd : d = c
          · subst hd
            simp [Unbroken, trace]
          · have hsame : trace c none (⟨s.time, d, none, .fetchBegan x.beginFetch.2⟩ :: s.history) =
                trace c none s.history := by
              simp [trace, hd]
            rwa [hsame]
      | @finish d t x f old driver hx htr htime =>
          rw [noteAll_history, trace_append]
          by_cases hd : d = c
          · subst hd
            rw [trace_notes_self]
            simp [Unbroken, Ending.happenings]
          · rwa [trace_notes_other _ (by simp [hd]), List.nil_append]
      | wait ht hquiet => exact hs
  | @wake w hw =>
      obtain ⟨x, l, hs', phase, began, h⟩ := exists_woken hw
      rwa [h.history, trace_append, trace_notes_other _ (by simp), List.nil_append]

theorem unbroken_of_steps {foreign : Gauge.Registry} {sources : List Source} {s : Service}
    (h : ReflTransGen Step (create foreign sources) s) (c : ℕ) :
    Unbroken (trace c none s.history) :=
  steps_induction (P := fun s => Unbroken (trace c none s.history)) (fun h hs => h.unbroken hs) h
    fun _ _ _ htr => by cases htr

/-- What can have been noted of a pass. -/
theorem pass_split {timeout : Duration} {driver : Census.Driver} {b : ℕ} {f : Fetch}
    {rest new : List (ℕ × Happening)} (h : wholePass timeout driver b f = rest ++ new) :
    new = [] ∨ new = [(b, .fetchBegan f)] ∨ new = wholePass timeout driver b f ∨
      ∃ t answered old, new = (t, .fetchEnded answered) :: old := by
  rw [wholePass] at h ⊢
  rcases rest with _ | ⟨e₁, _ | ⟨e₂, _ | ⟨e₃, rest⟩⟩⟩
  · exact .inr (.inr (.inl h.symm))
  · rw [List.singleton_append] at h
    obtain ⟨-, hnew⟩ := List.cons_eq_cons.mp h
    exact .inr (.inr (.inr ⟨_, _, _, hnew.symm⟩))
  · rw [List.cons_append, List.singleton_append] at h
    obtain ⟨-, hrest⟩ := List.cons_eq_cons.mp h
    obtain ⟨-, hnew⟩ := List.cons_eq_cons.mp hrest
    exact .inr (.inl hnew.symm)
  · simp only [List.cons_append, List.cons.injEq, List.nil_eq, List.append_eq_nil_iff] at h
    exact .inl h.2.2.2.2

/-- A command notes nothing in the foreground, or one whole pass that takes the time of its
fetch. -/
theorem perform_pass (s : Service) (command : Command) :
    foreground (s.perform command).1.history = foreground s.history ∨
    ∃ c driver x, driver ≠ Census.Driver.loop ∧ s.collectors[c]? = some x ∧
      (s.perform command).1.time = s.time + (x.beginFetch.2.ending x.timeout).after ∧
      foreground (s.perform command).1.history =
        inForeground c (wholePass x.timeout driver s.time x.beginFetch.2) ++
          foreground s.history := by
  have heffect := s.perform_effect command
  generalize s.perform command = result at heffect ⊢
  cases heffect with
  | none _ => exact .inl rfl
  | start fresh _ => exact .inl (congrArg foreground (rouse_history ..))
  | cancel c => exact .inl (congrArg foreground (rouse_history ..))
  | advance millis => exact .inl (foreground_settle ..)
  | join c => exact .inl (join_foreground s c)
  | @census _ _ _ x hcensus hx =>
      refine .inr ⟨_, _, x, Command.census?_driver hcensus, hx, ?_, census_foreground hx _⟩
      rw [census_eq hx, noteAll_time, awaited_time]

section Runs

variable {foreign : Gauge.Registry} {sources : List Source} {commands : List Command}
  {command : Command} {m : Service}

theorem Moment.steps (hm : Moment ((create foreign sources).after commands) command m) :
    ReflTransGen Step (create foreign sources) m :=
  (after_steps (create_orderly foreign sources) commands).trans hm.1

/-- At a moment a loop has a life behind it. -/
theorem Moment.life (hm : Moment ((create foreign sources).after commands) command m)
    {c k : ℕ} {x : Collector} {l : Loop} (hx : m.collectors[c]? = some x)
    (hl : x.loops[k]? = some l) :
    Life x.interval (timeoutOf sources c) ⟨m.time, l, trace c (some k) m.history⟩ := by
  rw [← timeout_of_steps hm.steps hx]
  exact life_of_steps (create_orderly foreign sources) (create_fresh foreign sources) hm.steps
    (sees_of_loop hx hl)

/-- **The fate of the fetches of the foreground**, at any moment of a command: all but the one of
the command itself have ended, and the clock does not get past the end of that one. -/
theorem foreground_fate (hm : Moment ((create foreign sources).after commands) command m)
    {c : ℕ} {newer older : List (ℕ × Happening)} {t : ℕ} {f : Fetch}
    (htr : trace c none m.history = newer ++ (t, .fetchBegan f) :: older) :
    Fate (timeoutOf sources c) false (m.IsCancelled c none) m.time t f newer.reverse := by
  have hrequested := (after_requested foreign sources commands c).concluded
  obtain ⟨new, hnew, -⟩ := history_of_steps hm.1
  obtain ⟨rest, hrest, -⟩ := history_of_steps hm.2
  have hmiddle : trace c none m.history =
      trace c none new ++ trace c none ((create foreign sources).after commands).history := by
    rw [hnew, trace_append]
  have hlast : trace c none
      (((create foreign sources).after commands).perform command).1.history =
        trace c none rest ++ trace c none new ++
          trace c none ((create foreign sources).after commands).history := by
    rw [hrest, trace_append, hmiddle, List.append_assoc]
  -- before the pass of the command begins, all passes have ended
  have hbefore : trace c none new = [] →
      Fate (timeoutOf sources c) false (m.IsCancelled c none) m.time t f newer.reverse := by
    intro hnone
    rw [hmiddle, hnone, List.nil_append] at htr
    exact (hrequested newer t f older htr).fate
  rcases perform_pass ((create foreign sources).after commands) command with
    hsame | ⟨d, driver, x, hdriver, hx, htime, hpass⟩
  · rw [← trace_foreground, hsame, trace_foreground, List.self_eq_append_left] at hlast
    exact hbefore (List.append_eq_nil_iff.mp hlast).2
  · rw [← trace_foreground, hpass, trace_append, trace_foreground, trace_inForeground,
      List.append_left_inj] at hlast
    by_cases hd : d = c
    · subst hd
      rw [timeout_eq foreign sources commands hx] at hlast htime
      rw [if_pos rfl] at hlast
      rcases pass_split hlast with hnone | hbegan | hwhole | ⟨e, answered, old, hended⟩
      · exact hbefore hnone
      · rw [hmiddle, hbegan] at htr
        rcases split_began htr with ⟨rfl, rfl, rfl⟩ | ⟨newer', rfl, hold⟩
        · have hle := time_le_of_steps hm.2
          rw [htime] at hle
          exact .of_inFlight hle
        · rw [List.reverse_cons]
          exact ((hrequested newer' t f older hold).append (goesOn_began _ _ _)).fate
      · rw [hmiddle, hwhole] at htr
        exact (hrequested.pass (by simp [hdriver]) _ _ newer t f older htr).fate
      · rw [hended, List.cons_append] at hmiddle
        exact absurd hmiddle (unbroken_of_steps hm.steps d e answered _)
    · rw [if_neg hd, eq_comm, List.append_eq_nil_iff] at hlast
      exact hbefore hlast.2

/-- **The fate of the fetches of a loop**, at any moment of a command. -/
theorem loop_fate (hm : Moment ((create foreign sources).after commands) command m) {c k : ℕ}
    {newer older : List (ℕ × Happening)} {t : ℕ} {f : Fetch}
    (htr : trace c (some k) m.history = newer ++ (t, .fetchBegan f) :: older) :
    Fate (timeoutOf sources c) true (m.IsCancelled c (some k)) m.time t f newer.reverse := by
  have hmem : (t, Happening.fetchBegan f) ∈ trace c (some k) m.history := by
    rw [htr]
    simp
  obtain ⟨r, hr, hnote⟩ := List.mem_filterMap.mp hmem
  obtain ⟨⟨rfl, hloop⟩, -⟩ := Option.ite_none_right_eq_some.mp hnote
  obtain ⟨x, hx, hk⟩ :=
    (orderly_of_steps hm.steps (create_orderly foreign sources)).noted r hr k hloop
  have hl := List.getElem?_eq_getElem hk
  exact ((hm.life hx hl).fate htr).imp fun hc => ⟨k, x, _, rfl, hx, hl, hc⟩

/-- A loop whose phase says that a fetch is in flight has noted its beginning last. -/
theorem loop_inFlight (hm : Moment ((create foreign sources).after commands) command m)
    {c k due finish : ℕ} {x : Collector} {l : Loop} {e : Ending}
    (hx : m.collectors[c]? = some x) (hl : x.loops[k]? = some l)
    (hp : l.phase = .fetching due finish e) :
    ∃ t f older, trace c (some k) m.history = (t, .fetchBegan f) :: older ∧
      m.time ≤ t + (timeoutOf sources c).ceilMillis := by
  have hlife := hm.life hx hl
  obtain ⟨⟨t, f, older, htrace, rfl, rfl, -⟩, -⟩ := hlife.inFlight due finish e hp
  have hin : m.time ≤ t + (f.ending (timeoutOf sources c)).after := hlife.inTime _ _ _ hp
  have hle := (f.after_le (timeoutOf sources c)).1
  exact ⟨t, f, older, htrace, by omega⟩

end Runs

/-- A census in the foreground takes the time of its fetch, and fetches what that one gives. -/
theorem perform_census_ending {s : Service} {command : Command} {c : ℕ} {driver : Census.Driver}
    {x : Collector} (hcensus : command.census? = some (c, driver)) (hhas : s.has c = true)
    (hx : s.collectors[c]? = some x) :
    (s.perform command).1.time = s.time + (x.beginFetch.2.ending x.timeout).after ∧
      (s.perform command).2 = command.tell (x.beginFetch.2.ending x.timeout).fetched := by
  rw [perform_census hcensus hhas, census_eq hx, noteAll_time, awaited_time]
  exact ⟨rfl, rfl⟩

/-- **The time-out of a fetch is exact.** At every moment of every run:

- Each fetch that ever began, of a loop or of a census in the foreground, is one of these: its
  pass ended with its answer when that came, which was no later than the time-out rounded up to a
  millisecond; or it ended at that very millisecond with the time-out as it is configured, the
  fetch abandoned once; or its loop was cancelled and gave it up; or it is in flight and not
  overdue.
- So no loop has a fetch in flight beyond its time-out.
- A command for a census takes as long as its fetch, and tells its answer or the time-out.
- What a fetch would have answered after its time-out shows in nothing: scripts that are the same
  without such answers make the same runs. -/
theorem fetch_time_out_is_exact (foreign : Gauge.Registry) (sources : List Source)
    (commands : List Command) (command : Command) (m : Service)
    (hm : Moment ((create foreign sources).after commands) command m) :
    let s := (create foreign sources).after commands
    (∀ c loop newer t f older, trace c loop m.history = newer ++ (t, .fetchBegan f) :: older →
      Fate (timeoutOf sources c) loop.isSome (m.IsCancelled c loop) m.time t f newer.reverse) ∧
    (∀ c k x l due finish e, m.collectors[c]? = some x → x.loops[k]? = some l →
      l.phase = .fetching due finish e →
      ∃ t f older, trace c (some k) m.history = (t, .fetchBegan f) :: older ∧
        m.time ≤ t + (timeoutOf sources c).ceilMillis) ∧
    (∀ c driver x, command.census? = some (c, driver) → s.has c = true →
      s.collectors[c]? = some x →
      let f := x.beginFetch.2
      let timeout := timeoutOf sources c
      (∀ a, f.answer = some a → f.delay ≤ timeout.ceilMillis →
        (s.perform command).1.time = s.time + f.delay ∧
        (s.perform command).2 = command.tell a) ∧
      ((∀ a, f.answer = some a → timeout.ceilMillis < f.delay) →
        (s.perform command).1.time = s.time + timeout.ceilMillis ∧
        (s.perform command).2 = command.tell (.error (.timeout timeout)))) ∧
    ∀ sources', sources'.map Source.cutOff = sources.map Source.cutOff →
      (create foreign sources').run (commands ++ [command]) =
        (create foreign sources).run (commands ++ [command]) := by
  intro s
  refine ⟨?_, ?_, ?_, ?_⟩
  · intro c loop newer t f older htr
    cases loop with
    | none => exact foreground_fate hm htr
    | some k => exact loop_fate hm htr
  · intro c k x l due finish e hx hl hp
    exact loop_inFlight hm hx hl hp
  · intro c driver x hcensus hhas hx f timeout
    obtain ⟨htime, hanswer⟩ := perform_census_ending hcensus hhas hx
    rw [timeout_eq foreign sources commands hx] at htime hanswer
    rcases f.ending_inTime_or_late timeout with ⟨a, ha, hle, hending⟩ | ⟨hlate, hending⟩
    · rw [show x.beginFetch.2.ending (timeoutOf sources c) = _ from hending] at htime hanswer
      refine ⟨fun b hb _ => ?_, fun hlate => absurd (hlate a ha) (not_lt.mpr hle)⟩
      obtain rfl := Option.some.inj (ha.symm.trans hb)
      exact ⟨htime, hanswer⟩
    · rw [show x.beginFetch.2.ending (timeoutOf sources c) = _ from hending] at htime hanswer
      exact ⟨fun b hb hle => absurd (hlate b hb) (not_lt.mpr hle), fun _ => ⟨htime, hanswer⟩⟩
  · intro sources' h
    exact run_eq_of_inStep (create_inStep foreign h) _

/-- A time-out of a millisecond and a half. The loop's answer comes after two, which is in time;
the caller's would come after three, and the caller gets the time-out after two. -/
theorem answers_around_the_deadline :
    let sources : List Source := [⟨.ofMillis 1000, ⟨1500000⟩,
      [⟨some (.ok []), 2, false⟩, ⟨some (.ok []), 3, false⟩]⟩]
    let s := (create {} sources).after [.start 0 false, .advance 10]
    let m := (s.perform (.get 0)).1
    s.Moment (.get 0) m ∧ m.time = 12 ∧
      (s.perform (.get 0)).2 = .tally (.error ⟨.timeout ⟨1500000⟩⟩) ∧
      marks 0 m.history = [(12, .abandoned), (10, .fetch), (2, .done), (0, .fetch)] := by
  intro sources s m
  have hs : s.Orderly := after_orderly (create_orderly {} sources) _
  have hm : s.Moment (.get 0) m := ⟨steps_of_strides (perform_strides hs _), .refl⟩
  have hdelay : s.collectors[0]?.map (fun x => x.beginFetch.2.delay) = some 3 := by
    decide +kernel
  have htime : s.time = 10 := by decide +kernel
  have hmarks : marks 0 m.history =
      [(12, .abandoned), (10, .fetch), (2, .done), (0, .fetch)] := by
    decide +kernel
  obtain ⟨x, hx, hthree⟩ := Option.map_eq_some_iff.mp hdelay
  obtain ⟨-, -, hcensus, -⟩ :=
    fetch_time_out_is_exact {} sources [.start 0 false, .advance 10] (.get 0) m hm
  obtain ⟨hends, hanswer⟩ := (hcensus 0 .call x rfl (by decide +kernel) hx).2 fun a _ => by
    rw [hthree]
    decide +kernel
  refine ⟨hm, ?_, hanswer, hmarks⟩
  rw [show m.time = _ from hends, show (timeoutOf sources 0).ceilMillis = 2 by decide +kernel]
  exact congrArg (· + 2) htime

end AccountCensus.Service
