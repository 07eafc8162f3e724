import AccountCensus.Proofs.Alone
import AccountCensus.Proofs.Failures
import AccountCensus.Proofs.Routes

/-!
# Watching a service

Whoever reads the exposition text, and whoever lets time pass in two spans instead of one, leaves a
service as it would have been. For reading this is plain. For time it is a fact about every timer:
where a span is cut, the loops that are cancelled or have not run yet have had their turn, so that
no wake time depends on where the clock stands (`next?_of_quiet`), and the wakes of the two spans
are the wakes of the one (`Settles.trans`). `passUntil_passUntil` says this of whole states; a run
that is watched goes through the states of the run that is not.
-/

namespace AccountCensus.Service

open Relation

/-! ## Cutting a span of time -/

section Cut

variable {s s' s'' : Service} {deadline deadline' : ℕ}

/-- Before the deadline of a quiet service the place of the clock does not matter. -/
theorem next?_of_quiet (hs : s.Orderly) (hquiet : s.Quiet deadline) (hle : s.time ≤ deadline) :
    { s with time := deadline }.next? = s.next? := by
  have hof : ∀ c, { s with time := deadline }.nextOf c = s.nextOf c := by
    intro c
    unfold nextOf
    cases hx : s.collectors[c]? with
    | none => rfl
    | some x =>
        have hnext : x.next? deadline = x.next? s.time := by
          refine Collector.next?_of_le hle fun t k ht => ?_
          obtain ⟨w, hw, hwle⟩ := next?_le_collector hs hx ht
          exact (hquiet w hw).trans hwle
        rw [Option.bind_some, Option.bind_some, hnext]
  have hamong : ∀ cs, { s with time := deadline }.nextAmong cs = s.nextAmong cs := by
    intro cs
    induction cs with
    | nil => rfl
    | cons c cs ih => rw [nextAmong, nextAmong, hof, ih]
  exact hamong s.turns

/-- A wake sets the clock, wherever it stood. -/
theorem wake_of_time {w : Wake} (hw : s.next? = some w) (t : ℕ) :
    { s with time := t }.wake w = s.wake w := by
  obtain ⟨x, hx, -⟩ := next?_collector hw
  simp only [wake, hx]

theorem Settles.unique (h : Settles deadline s s') (h' : Settles deadline s s'') : s' = s'' := by
  induction h with
  | quiet hquiet =>
      cases h' with
      | quiet _ => rfl
      | wake hw hlt _ => exact absurd (hquiet _ hw) (not_le.mpr hlt)
  | wake hw hlt _ ih =>
      cases h' with
      | quiet hquiet => exact absurd (hquiet _ hw) (not_le.mpr hlt)
      | wake hw' _ hsettles =>
          obtain rfl := Option.some.inj (hw.symm.trans hw')
          exact ih hsettles

/-- **Settling can be cut in two.** -/
theorem Settles.trans (h : Settles deadline s s') (h' : Settles deadline' s' s'')
    (hle : deadline ≤ deadline') : Settles deadline' s s'' := by
  induction h with
  | quiet _ => exact h'
  | wake hw hlt _ ih => exact .wake hw (hlt.trans_le hle) (ih h')

/-- What a quiet service settles to does not depend on the clock, apart from the clock. -/
theorem Settles.of_quiet (hs : s.Orderly) (hquiet : s.Quiet deadline) (hle : s.time ≤ deadline)
    (h : Settles deadline' s s') :
    ∃ u, Settles deadline' { s with time := deadline } u ∧ ∀ t : ℕ,
      ({ u with time := t } : Service) = { s' with time := t } := by
  have hnext := next?_of_quiet hs hquiet hle
  cases h with
  | quiet hquiet' =>
      exact ⟨_, .quiet fun w hw => hquiet' w (hnext ▸ hw), fun _ => rfl⟩
  | wake hw hlt hsettles =>
      exact ⟨s', .wake (hnext.trans hw) hlt ((wake_of_time hw deadline).symm ▸ hsettles),
        fun _ => rfl⟩

theorem passUntil_eq (hle : s.time ≤ deadline) :
    s.passUntil deadline = { s.settle deadline with time := deadline } := by
  rw [passUntil, max_eq_right hle]

/-- **Passing time can be cut in two**, at any time in between. -/
theorem passUntil_passUntil (hs : s.Orderly) (hle : s.time ≤ deadline)
    (hle' : deadline ≤ deadline') :
    (s.passUntil deadline).passUntil deadline' = s.passUntil deadline' := by
  have hrest : (s.settle deadline).Orderly := orderly_of_steps (settle_steps s deadline) hs
  have hcut : (s.passUntil deadline).Orderly :=
    orderly_of_steps (steps_of_strides (passUntil_strides hs hle)) hs
  have hwhole : s.settle deadline' = (s.settle deadline).settle deadline' :=
    (settle_settles hs deadline').unique
      ((settle_settles hs deadline).trans (settle_settles hrest deadline') hle')
  obtain ⟨u, hu, hclock⟩ := (settle_settles hrest deadline').of_quiet hrest
    (settle_quiet hs deadline) (settle_time_le hle)
  rw [← passUntil_eq hle] at hu
  rw [passUntil_eq (by rwa [passUntil_time hle]), passUntil_eq (hle.trans hle'), hwhole,
    (settle_settles hcut deadline').unique hu]
  exact hclock deadline'

end Cut

/-! ## Looking -/

namespace Command

/-- A command that reads the exposition text, directly or with GET. -/
def isLook : Command → Bool
  | gather _ => true
  | request _ r => r.method == "GET" && Http.barePath r.path == "/metrics"
  | _ => false

end Command

theorem route_exposition {r : Http.Request} (hpath : Http.barePath r.path = "/metrics")
    (hmethod : r.method = "GET") : r.route = .serve .exposition :=
  Http.Request.route_of_get hpath hmethod

/-- The text that is read by either way is the one that the gauges have at that time. -/
theorem perform_exposition {s : Service} {c : ℕ} {r : Http.Request} (hhas : s.has c = true)
    (hpath : Http.barePath r.path = "/metrics") (hmethod : r.method = "GET") :
    s.perform (.gather c) = (s, .text s.metrics.registry.exposition) ∧
      s.perform (.request c r) =
        (s, .response (Http.expositionResponse s.metrics.registry.exposition)) := by
  refine ⟨perform_of_has rfl hhas, ?_⟩
  rw [perform_of_has rfl hhas]
  simp only [carryOut, request, route_exposition hpath hmethod]
  simp [Http.Response.forMethod, hmethod]

/-- **Looking changes nothing.** -/
theorem perform_look {command : Command} (h : command.isLook = true) (s : Service) :
    (s.perform command).1 = s := by
  have hcases : ∀ c, command.needs = some c → (s.has c = true → (s.carryOut command).1 = s) →
      (s.perform command).1 = s := by
    intro c hneeds hcarry
    by_cases hhas : s.has c = true
    · rw [perform_of_has hneeds hhas]
      exact hcarry hhas
    · rw [perform_of_not_has hneeds hhas]
  cases command with
  | gather c => exact hcases c rfl fun _ => rfl
  | request c r =>
      simp only [Command.isLook, Bool.and_eq_true, beq_iff_eq] at h
      refine hcases c rfl fun _ => ?_
      simp only [carryOut, request, route_exposition h.2 h.1]
  | _ => cases h

/-! ## Watched runs -/

/-- A run of commands, watched: looks are put in between, and spans of time are cut in two, again
and again. A command is marked that stands for one of the run; of a span that was cut that is the
last piece. -/
inductive Watched : List Command → List (Command × Bool) → Prop
  | nil : Watched [] []
  | keep {p : List Command} {q : List (Command × Bool)} (command : Command) :
      Watched p q → Watched (command :: p) ((command, true) :: q)
  | look {p : List Command} {q : List (Command × Bool)} {command : Command} :
      command.isLook = true → Watched p q → Watched p ((command, false) :: q)
  | cut {p : List Command} {q : List (Command × Bool)} {a b : ℕ} : 1 ≤ a → 1 ≤ b →
      Watched (.advance b :: p) q → Watched (.advance (a + b) :: p) ((.advance a, false) :: q)

/-- What is seen of the marked commands. -/
def markedOnly (q : List (Command × Bool)) (seen : List Observation) : List Observation :=
  ((seen.zip q).filter fun e => e.2.2).map Prod.fst

/-- What is seen of a command apart from what happened since the command before it. -/
def Observation.standing (o : Observation) : Answer × ℕ × List Bool × List String :=
  (o.answer, o.time, o.running, o.samples)

/-- The fetch marks of source `c` in all that is seen. -/
def marksSeen (c : ℕ) (seen : List Observation) : List (ℕ × Mark) :=
  seen.flatMap fun o => o.marks.getD c []

/-- The parts of a span that is cut do what the whole of it does. -/
theorem perform_cut {s : Service} (hs : s.Orderly) (a b : ℕ) :
    (s.perform (.advance a)).1.perform (.advance b) = s.perform (.advance (a + b)) := by
  have htime : (s.passUntil (s.time + a)).time = s.time + a := passUntil_time (Nat.le_add_right ..)
  show ((s.passUntil (s.time + a)).passUntil ((s.passUntil (s.time + a)).time + b), _) =
    (s.passUntil (s.time + (a + b)), _)
  rw [htime, Nat.add_assoc, passUntil_passUntil hs (Nat.le_add_right ..) (by omega)]

/-- A watched run ends as the run does. -/
theorem Watched.after_eq {p : List Command} {q : List (Command × Bool)} (h : Watched p q)
    {s : Service} (hs : s.Orderly) : s.after (q.map Prod.fst) = s.after p := by
  induction h generalizing s with
  | nil => rfl
  | keep command _ ih => exact ih (perform_orderly hs command)
  | @look p q command hlook _ ih =>
      show (s.perform command).1.after (q.map Prod.fst) = _
      rw [perform_look hlook]
      exact ih hs
  | @cut p q a b _ _ _ ih =>
      show (s.perform (.advance a)).1.after (q.map Prod.fst) =
        (s.perform (.advance (a + b))).1.after p
      rw [ih (perform_orderly hs _), ← perform_cut hs a b]
      rfl

/-- The marked commands of a watched run are answered as those of the run, and find the service as
those find it. -/
theorem Watched.standing_eq {p : List Command} {q : List (Command × Bool)} (h : Watched p q)
    {s : Service} (hs : s.Orderly) :
    (markedOnly q (s.run (q.map Prod.fst))).map Observation.standing =
      (s.run p).map Observation.standing := by
  induction h generalizing s with
  | nil => rfl
  | keep command _ ih =>
      exact congrArg (_ :: ·) (ih (perform_orderly hs command))
  | @look p q command hlook _ ih =>
      show (markedOnly q ((s.perform command).1.run (q.map Prod.fst))).map _ = _
      rw [perform_look hlook]
      exact ih hs
  | @cut p q a b _ _ _ ih =>
      show (markedOnly q ((s.perform (.advance a)).1.run (q.map Prod.fst))).map _ = _
      rw [ih (perform_orderly hs _), run, run, perform_cut hs a b]
      rfl

/-! ## The marks of a run -/

theorem length_of_steps {s s' : Service} (h : ReflTransGen Step s s') :
    s'.collectors.length = s.collectors.length := by
  refine steps_induction (P := fun u => u.collectors.length = s.collectors.length) ?_ h rfl
  intro u u' hstep ih
  have hsame := congrArg List.length hstep.settings
  rw [List.length_map, List.length_map] at hsame
  exact hsame.trans ih

/-- **The marks that are seen in a run are those of its history.** -/
theorem marks_of_run (foreign : Gauge.Registry) (sources : List Source) (commands : List Command)
    {c : ℕ} (hc : c < sources.length) :
    marksSeen c ((create foreign sources).run commands) =
      marks c ((create foreign sources).after commands).history.reverse := by
  have h₀ := create_orderly foreign sources
  induction commands using List.reverseRecOn with
  | nil => rfl
  | append_singleton commands command ih =>
      have hstep := steps_of_strides (perform_strides (after_orderly h₀ commands) command)
      have hlength : c < ((((create foreign sources).after commands).perform
          command).1).collectors.length := by
        rw [length_of_steps hstep, length_of_steps (after_steps h₀ commands), create,
          List.length_map]
        exact hc
      rw [run_snoc, marksSeen, List.flatMap_append, List.flatMap_singleton, ← marksSeen, ih,
        after_snoc, since_of_steps hstep, List.reverse_append, List.reverse_reverse, marks_append]
      simp [observe, hlength]

/-- **Watching a service does not change it.** Let reads of the exposition text be put into a run
anywhere, and let its spans of time be cut in two anywhere, as often as one likes. Then the service
ends in the same state: the same clock, gauges, loops and scripts. Every source has left the same
marks at the same times and the journal tells the same, unless a collector is broken, where the
encoder complains at each reading. Each command of the run gets the same answer, at the same time,
with the same samples and the same loops running. A read by GET tells the very text that the gauges
have at that time. -/
theorem watching_changes_nothing (foreign : Gauge.Registry) (sources : List Source)
    {commands : List Command} {watched : List (Command × Bool)} (h : Watched commands watched) :
    let s := create foreign sources
    let plain := s.run commands
    let seen := s.run (watched.map Prod.fst)
    s.after (watched.map Prod.fst) = s.after commands ∧
    (∀ c < sources.length, marksSeen c seen = marksSeen c plain) ∧
    (seen.flatMap (·.events)).filter (!·.isComplaint) =
      (plain.flatMap (·.events)).filter (!·.isComplaint) ∧
    (foreign.broken = false → seen.flatMap (·.events) = plain.flatMap (·.events)) ∧
    (markedOnly watched seen).map Observation.standing = plain.map Observation.standing ∧
    ∀ (p : List Command) (c : ℕ) (r : Http.Request), (s.after p).has c = true →
      Http.barePath r.path = "/metrics" → r.method = "GET" →
      ∃ text, text = (s.after p).metrics.registry.exposition ∧
        ((s.after p).perform (.gather c)).2 = .text text ∧
        ((s.after p).perform (.request c r)).2 =
          .response { status := 200, contentType := some Http.plainText, body := text } := by
  intro s plain seen
  have h₀ : s.Orderly := create_orderly foreign sources
  have hafter := h.after_eq h₀
  refine ⟨hafter, fun c hc => ?_, ?_, fun hbroken => ?_, h.standing_eq h₀,
    fun p c r hhas hpath hmethod => ?_⟩
  · rw [marks_of_run foreign sources _ hc, marks_of_run foreign sources _ hc, hafter]
  · rw [journal_without_complaints, journal_without_complaints, hafter]
  · rw [journal_of_unbroken hbroken, journal_of_unbroken hbroken, hafter]
  · obtain ⟨hgather, hrequest⟩ := perform_exposition hhas hpath hmethod
    exact ⟨_, rfl, by rw [hgather], by rw [hrequest]; rfl⟩

/-- A span is cut while the first fetch of a loop waits for its answer, and again while the second
one waits for its time-out; in between somebody looks. -/
theorem span_cut_inside_fetches :
    let answering : Fetch := ⟨some (.ok [⟨"ann", "ann@x"⟩, ⟨"Ann", "ann@X"⟩]), 50, false⟩
    let stalling : Fetch := ⟨none, 0, false⟩
    let sources : List Source :=
      [⟨.ofMillis 100, .ofMillis 80, [answering, stalling, stalling]⟩,
        ⟨.ofMillis 30, .ofMillis 80, []⟩]
    let scrape : Command := .request 0 ⟨"/metrics?format=text", "GET"⟩
    let commands : List Command :=
      [.start 0 false, .start 1 false, .advance 230, .get 1, .cancel 0, .join 0]
    let watched : List (Command × Bool) :=
      [(.start 0 false, true), (.gather 1, false), (.start 1 false, true), (.advance 20, false),
        (scrape, false), (.advance 85, false), (scrape, false), (.advance 125, true),
        (.get 1, true), (.gather 0, false), (.cancel 0, true), (.join 0, true)]
    let s := create {} sources
    Watched commands watched ∧
      s.after (watched.map Prod.fst) = s.after commands ∧
      marksSeen 0 (s.run (watched.map Prod.fst)) = marksSeen 0 (s.run commands) ∧
      marksSeen 0 (s.run commands) = [(0, .fetch), (50, .done), (100, .fetch), (180, .abandoned),
        (200, .fetch), (230, .abandoned)] := by
  intro answering stalling sources scrape commands watched s
  have hscrape : scrape.isLook = true := by
    decide +kernel
  have hwatched : Watched commands watched :=
    .keep _ (.look rfl (.keep _ (.cut (b := 210) (by decide) (by decide) (.look hscrape
      (.cut (b := 125) (by decide) (by decide) (.look hscrape (.keep _ (.keep _ (.look rfl
        (.keep _ (.keep _ .nil)))))))))))
  obtain ⟨hafter, hmarks, -⟩ := watching_changes_nothing {} sources hwatched
  exact ⟨hwatched, hafter, hmarks 0 (by decide), by decide +kernel⟩

end AccountCensus.Service
