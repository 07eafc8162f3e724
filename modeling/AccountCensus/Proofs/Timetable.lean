import AccountCensus.Proofs.Blank
import AccountCensus.Proofs.Course

/-!
# The timetable of a collector

Of commands that nobody waits for, a collector notices only those that start or cancel its own
loop, and how much time goes by between them: its timetable. `Lives` lets a collector live by a
timetable, alone and with one run between two of its deeds, however the time was cut into commands;
`after_lives` says that this is what a service makes of it. Collectors that are alike but for
their answers and that live by one timetable leave the same marks (`Lives.alike`), and so do they
in two services with whatever other collectors (`schedule_ignores_answers`).
-/

namespace AccountCensus.Service

/-! ## Deeds -/

/-- What a command does to one collector. -/
inductive Deed where
  | start (fresh : Bool)
  | cancel
deriving DecidableEq, Repr

namespace Deed

def isStart : Deed → Bool
  | start _ => true
  | cancel => false

def carryOut : Deed → Collector → Collector
  | start fresh, x => x.start fresh
  | cancel, x => x.cancel

theorem blank_carryOut (d : Deed) (x : Collector) :
    (d.carryOut x).blank = d.carryOut x.blank := by
  cases d with
  | start fresh => exact x.blank_start fresh
  | cancel => exact x.blank_cancel

theorem isRunning_carryOut {d : Deed} (hd : d.isStart = false) (x : Collector) :
    (d.carryOut x).isRunning = x.isRunning := by
  cases d with
  | start fresh => cases hd
  | cancel =>
      show (x.joinable.bind fun k => x.cancel.loops[k]?).any Loop.isLive = _
      unfold Collector.isRunning Collector.joined?
      cases x.joinable with
      | none => rfl
      | some k =>
          rw [Option.bind_some, Option.bind_some, Collector.cancel_loops, List.getElem?_map]
          cases x.loops[k]? <;> rfl

end Deed

namespace Command

/-- What a command does to collector `c` itself. -/
def deed? (c : ℕ) : Command → Option Deed
  | start d fresh => if d = c then some (.start fresh) else none
  | cancel d => if d = c then some .cancel else none
  | _ => none

/-- The milliseconds that pass under a command that nobody waits for. -/
def span : Command → ℕ
  | advance millis => millis
  | _ => 0

/-- Nobody waits for an answer of a collector. -/
def isUnattended : Command → Bool
  | start .. | advance _ | cancel _ | gather _ => true
  | _ => false

end Command

/-- The milliseconds that pass under commands that nobody waits for. -/
def elapsed : List Command → ℕ
  | [] => 0
  | command :: commands => command.span + elapsed commands

/-- What is done to collector `c`, and when, from `now` on. -/
def timetable (c now : ℕ) : List Command → List (ℕ × Deed)
  | [] => []
  | command :: commands =>
    ((command.deed? c).map (now, ·)).toList ++ timetable c (now + command.span) commands

def starts (deeds : List (ℕ × Deed)) : ℕ := deeds.countP fun e => e.2.isStart

theorem timetable_append (c now : ℕ) (commands commands' : List Command) :
    timetable c now (commands ++ commands') =
      timetable c now commands ++ timetable c (now + elapsed commands) commands' := by
  induction commands generalizing now with
  | nil => rfl
  | cons command commands ih =>
      rw [List.cons_append, timetable, timetable, ih, List.append_assoc, elapsed, Nat.add_assoc]

theorem le_of_mem_timetable {c now : ℕ} {commands : List Command} {e : ℕ × Deed}
    (h : e ∈ timetable c now commands) : now ≤ e.1 := by
  induction commands generalizing now with
  | nil => cases h
  | cons command commands ih =>
      rcases List.mem_append.mp h with h | h
      · obtain ⟨d, -, rfl⟩ := Option.map_eq_some_iff.mp (Option.mem_toList.mp h)
        exact le_rfl
      · exact (Nat.le_add_right ..).trans (ih h)

/-! ## Lives -/

/-- A collector lives by a timetable until `last`: it runs alone up to each deed, which is then
carried out. Its marks stand latest first. -/
inductive Lives (last : ℕ) : ℕ → Collector → List (ℕ × Deed) → List (ℕ × Mark) → Collector → Prop
  | rest {now : ℕ} {x y : Collector} {ms : List (ℕ × Mark)} : now ≤ last →
      Runs last now x ms y → Lives last now x [] ms y
  | deed {now t : ℕ} {d : Deed} {x y z : Collector} {deeds : List (ℕ × Deed)}
      {ms ms' : List (ℕ × Mark)} : now ≤ t → Runs t now x ms y →
      Lives last t (d.carryOut y) deeds ms' z → Lives last now x ((t, d) :: deeds) (ms' ++ ms) z

section Lives

variable {last now : ℕ} {x x' y y' : Collector} {deeds late : List (ℕ × Deed)}
  {ms ms' : List (ℕ × Mark)}

theorem Lives.le (h : Lives last now x deeds ms y) : now ≤ last := by
  induction h with
  | rest hle _ => exact hle
  | deed hle _ _ ih => exact hle.trans ih

/-- Time that passes before a life belongs to its first run. -/
theorem Lives.pass {t : ℕ} (hle : now ≤ t) (hruns : Runs t now x ms y)
    (h : Lives last t y deeds ms' y') : Lives last now x deeds (ms' ++ ms) y' := by
  cases h with
  | rest hlast hruns' => exact .rest (hle.trans hlast) (hruns.trans hruns' hle hlast)
  | deed ht hruns' hlives =>
      rw [List.append_assoc]
      exact .deed (hle.trans ht) (hruns.trans hruns' hle ht) hlives

/-- **Collectors that are alike live alike.** -/
theorem Lives.alike (h : Lives last now x deeds ms y) (h' : Lives last now x' deeds ms' y')
    (hx : x.blank = x'.blank) : ms = ms' ∧ y.blank = y'.blank := by
  induction h generalizing x' ms' with
  | rest _ hruns =>
      cases h' with
      | rest _ hruns' => exact hruns.alike hruns' hx
  | @deed _ _ d _ _ _ _ _ _ _ hruns _ ih =>
      cases h' with
      | deed _ hruns' hlives' =>
          obtain ⟨rfl, hy⟩ := hruns.alike hruns' hx
          obtain ⟨rfl, hz⟩ := ih hlives' (by rw [d.blank_carryOut, d.blank_carryOut, hy])
          exact ⟨rfl, hz⟩

/-- A life of no time is its deeds. -/
theorem Lives.at_once (h : Lives last last x deeds ms y) :
    ms = [] ∧ y = deeds.foldl (fun z e => e.2.carryOut z) x := by
  induction deeds generalizing x ms with
  | nil =>
      cases h with
      | rest _ hruns => exact hruns.eq_of_at_once
  | cons e deeds ih =>
      cases h with
      | deed hle hruns hlives =>
          obtain rfl := le_antisymm hle hlives.le
          obtain ⟨rfl, rfl⟩ := hruns.eq_of_at_once
          obtain ⟨rfl, rfl⟩ := ih hlives
          exact ⟨rfl, rfl⟩

/-- Deeds at the very end leave no marks any more. -/
theorem Lives.cut (h : Lives last now x (deeds ++ late) ms y) (hlate : ∀ e ∈ late, last ≤ e.1) :
    ∃ z, Lives last now x deeds ms z ∧ y = late.foldl (fun z e => e.2.carryOut z) z := by
  induction deeds generalizing now x ms with
  | nil =>
      rw [List.nil_append] at h
      cases late with
      | nil => exact ⟨y, h, rfl⟩
      | cons e late =>
          cases h with
          | deed hle hruns hlives =>
              obtain rfl := le_antisymm (hlate _ List.mem_cons_self) hlives.le
              obtain ⟨rfl, rfl⟩ := hlives.at_once
              exact ⟨_, .rest hle hruns, rfl⟩
  | cons e deeds ih =>
      cases h with
      | deed hle hruns hlives =>
          obtain ⟨z, hz, hy⟩ := ih hlives
          exact ⟨z, .deed hle hruns hz, hy⟩

/-- Of two collectors that are alike one may have some deeds at the very end before it. -/
theorem Lives.agree (h : Lives last now x deeds ms y)
    (h' : Lives last now x' (deeds ++ late) ms' y') (hx : x.blank = x'.blank)
    (hlate : ∀ e ∈ late, last ≤ e.1) :
    ms = ms' ∧ (starts deeds = starts (deeds ++ late) → y.isRunning = y'.isRunning) := by
  obtain ⟨z, hz, rfl⟩ := h'.cut hlate
  obtain ⟨rfl, hblank⟩ := h.alike hz hx
  refine ⟨rfl, fun hstarts => ?_⟩
  have hnone : ∀ e ∈ late, e.2.isStart = false := by
    rw [starts, starts, List.countP_append] at hstarts
    have hzero : late.countP (fun e => e.2.isStart) = 0 := by omega
    intro e he
    simpa using List.countP_eq_zero.mp hzero e he
  rw [← y.blank_isRunning, hblank, z.blank_isRunning]
  clear hz hblank hlate hstarts h'
  induction late generalizing z with
  | nil => rfl
  | cons e late ih =>
      rw [List.foldl_cons, ← ih _ fun e' he' => hnone e' (List.mem_cons_of_mem _ he'),
        Deed.isRunning_carryOut (hnone e List.mem_cons_self)]

end Lives

/-! ## Within a service -/

section Project

variable {s : Service} {c : ℕ} {x : Collector}

/-- What a deed of some collector makes of collector `c`. -/
theorem rouse_alone {d : ℕ} (hx : s.collectors[c]? = some x) (f : Collector → Collector) :
    (s.rouse d f).collectors[c]? = some (if d = c then f x else x) := by
  rw [rouse_collectors, List.getElem?_modify, hx]
  rfl

/-- **Under a command that nobody waits for** a collector runs alone, and then its deed is
done. -/
theorem perform_alone (hs : s.Orderly) (hready : s.metrics.ready = true)
    (hx : s.collectors[c]? = some x) {command : Command} (h : command.isUnattended = true) :
    (s.perform command).1.time = s.time + command.span ∧
      ∃ ms y, Runs (s.time + command.span) s.time x ms y ∧
        (s.perform command).1.collectors[c]? =
          some ((command.deed? c).elim y fun d => d.carryOut y) ∧
        marks c (s.perform command).1.history = ms ++ marks c s.history := by
  have hc : c < s.collectors.length := (List.getElem?_eq_some_iff.mp hx).1
  cases command with
  | start d fresh =>
      refine ⟨?_, [], x, Runs.at_once _ _, ?_⟩
      · simp only [perform, Command.needs]
        split <;> simp [carryOut, Command.span]
      · by_cases hd : s.has d = true
        · simp only [perform, Command.needs, hd, if_true, carryOut, Command.deed?]
          refine ⟨?_, by rw [rouse_history, List.nil_append]⟩
          rw [rouse_alone hx]
          by_cases hdc : d = c <;> simp [hdc, Deed.carryOut]
        · have hdc : d ≠ c := by
            rintro rfl
            exact hd (by simp [has, hready, hc])
          simp [perform, Command.needs, hd, Command.deed?, hdc, hx]
  | cancel d =>
      refine ⟨by simp [perform, Command.needs, carryOut, Command.span], [], x,
        Runs.at_once _ _, ?_, by simp [perform, Command.needs, carryOut]⟩
      simp only [perform, Command.needs, carryOut, Command.deed?]
      rw [rouse_alone hx]
      by_cases hdc : d = c <;> simp [hdc, Deed.carryOut]
  | advance millis =>
      obtain ⟨ms, y, hruns, hy, hms⟩ := (settle_settles hs (s.time + millis)).runs hs hx
      exact ⟨passUntil_time (Nat.le_add_right ..), ms, y, hruns, hy, hms⟩
  | gather d =>
      have hsame : (s.perform (.gather d)).1 = s := by
        simp only [perform, Command.needs]
        split <;> rfl
      rw [hsame]
      exact ⟨rfl, [], x, Runs.at_once _ _, hx, rfl⟩
  | _ => cases h

/-- **In a service a collector lives by its timetable.** -/
theorem after_lives (hs : s.Orderly) (hready : s.metrics.ready = true)
    (hx : s.collectors[c]? = some x) {commands : List Command}
    (h : ∀ command ∈ commands, command.isUnattended = true) :
    (s.after commands).time = s.time + elapsed commands ∧
      ∃ ms y, Lives (s.time + elapsed commands) s.time x (timetable c s.time commands) ms y ∧
        (s.after commands).collectors[c]? = some y ∧
        marks c (s.after commands).history = ms ++ marks c s.history := by
  induction commands generalizing s x with
  | nil => exact ⟨rfl, [], x, .rest le_rfl (Runs.at_once _ _), hx, rfl⟩
  | cons command commands ih =>
      obtain ⟨htime, ms, y, hruns, hy, hms⟩ :=
        perform_alone hs hready hx (h command List.mem_cons_self)
      have hsteps := steps_of_strides (perform_strides hs command)
      obtain ⟨htime', ms', z, hlives, hz, hms'⟩ := ih (orderly_of_steps hsteps hs)
        ((ready_of_steps hsteps).trans hready) hy
        fun command' hcommand' => h command' (List.mem_cons_of_mem _ hcommand')
      have hspan : s.time + elapsed (command :: commands) =
          s.time + command.span + elapsed commands := (Nat.add_assoc ..).symm
      rw [htime] at htime' hlives
      refine ⟨htime'.trans hspan.symm, ms' ++ ms, z, ?_, hz, ?_⟩
      · rw [hspan, timetable]
        cases hd : command.deed? c with
        | none =>
            rw [hd] at hlives
            exact hlives.pass (Nat.le_add_right ..) hruns
        | some d =>
            -- a deed is done in no time
            have hzero : command.span = 0 := by
              cases command with
              | advance millis => cases hd
              | _ => rfl
            rw [hd] at hlives
            rw [hzero] at hlives hruns ⊢
            exact .deed le_rfl hruns hlives
      · rw [List.append_assoc, ← hms]
        exact hms'

end Project

/-! ## Two services -/

/-- The collector of a source, when it was just created. -/
def Source.collector (x : Source) : Collector :=
  { interval := x.interval, timeout := x.timeout, script := x.script }

theorem create_collector {foreign : Gauge.Registry} {sources : List Source} {c : ℕ}
    {source : Source} (h : sources[c]? = some source) :
    (create foreign sources).collectors[c]? = some source.collector := by
  simp [create, h, Source.collector]

theorem map_blank_of_samePace {fs gs : List Fetch} (h : List.Forall₂ Fetch.SamePace fs gs) :
    fs.map Fetch.blank = gs.map Fetch.blank := by
  induction h with
  | nil => rfl
  | cons hfg _ ih => rw [List.map_cons, List.map_cons, hfg.blank, ih]

/-- A collector that was created lives by its timetable from the beginning. -/
theorem create_lives {foreign : Gauge.Registry} {sources : List Source} {c : ℕ} {source : Source}
    (hsource : sources[c]? = some source) (hhas : (create foreign sources).has c = true)
    {p : List Command} (hp : ∀ command ∈ p, command.isUnattended = true) :
    ((create foreign sources).after p).time = elapsed p ∧
      ∃ y, Lives (elapsed p) 0 source.collector (timetable c 0 p)
          (marks c ((create foreign sources).after p).history) y ∧
        ((create foreign sources).after p).collectors[c]? = some y := by
  obtain ⟨hready, -⟩ := Bool.and_eq_true_iff.mp hhas
  obtain ⟨htime, ms, y, hlives, hy, hms⟩ :=
    after_lives (create_orderly foreign sources) hready (create_collector hsource) hp
  have hzero : (create foreign sources).time = 0 := rfl
  have hnone : marks c (create foreign sources).history = [] := rfl
  rw [hzero, Nat.zero_add] at htime hlives
  rw [hnone, List.append_nil] at hms
  exact ⟨htime, y, hms ▸ hlives, hy⟩

/-- **The schedule of a collector does not depend on answers, nor on other collectors.** Take two
services, whatever else is in them, with a collector each. Let the two have the same interval and
time-out, and scripts of which corresponding fetches take equally long and do the same to the
token, and let what is done to them be done at the same times, however time was cut into commands
and whatever is done to others. Then at equal times they have left the same marks, and their loops
run in both services or in neither.

At the very time of a start one service can be ahead of the other by that start; then as many
starts have to be waited for. No answer, be it an error, ends a loop that ticks: it ends only if
its token was cancelled. -/
theorem schedule_ignores_answers (foreign foreign' : Gauge.Registry)
    (sources sources' : List Source) (c c' : ℕ) (source source' : Source)
    (commands commands' p p' : List Command)
    (hsource : sources[c]? = some source) (hsource' : sources'[c']? = some source')
    (hhas : (create foreign sources).has c = true)
    (hhas' : (create foreign' sources').has c' = true)
    (hinterval : source.interval = source'.interval) (htimeout : source.timeout = source'.timeout)
    (hscript : List.Forall₂ Fetch.SamePace source.script source'.script)
    (hcommands : ∀ command ∈ commands, command.isUnattended = true)
    (hcommands' : ∀ command ∈ commands', command.isUnattended = true)
    (hdeeds : timetable c 0 commands = timetable c' 0 commands')
    (hp : p <+: commands) (hp' : p' <+: commands') :
    let s := (create foreign sources).after p
    let s' := (create foreign' sources').after p'
    s.time = s'.time →
    marks c s.history = marks c' s'.history ∧
    (starts (timetable c 0 p) = starts (timetable c' 0 p') →
      s.collectors[c]?.map Collector.isRunning = s'.collectors[c']?.map Collector.isRunning) ∧
    ∀ (x : Collector) (k : ℕ) (l : Loop), s.collectors[c]? = some x → x.loops[k]? = some l →
      x.interval.nanos ≠ 0 → l.isLive = false → l.cancelled = true := by
  intro s s' htime
  obtain ⟨q, rfl⟩ := hp
  obtain ⟨q', rfl⟩ := hp'
  have h₀ := create_orderly foreign sources
  have hs : s.Orderly := after_orderly h₀ p
  obtain ⟨hnow, y, hlives, hy⟩ := create_lives hsource hhas fun command h =>
    hcommands command (List.mem_append_left q h)
  obtain ⟨hnow', y', hlives', hy'⟩ := create_lives hsource' hhas' fun command h =>
    hcommands' command (List.mem_append_left q' h)
  have hblank : source.collector.blank = source'.collector.blank := by
    simp only [Source.collector, Collector.blank, hinterval, htimeout,
      map_blank_of_samePace hscript]
  have helapsed : elapsed p' = elapsed p := hnow'.symm.trans (htime.symm.trans hnow)
  rw [helapsed] at hlives'
  -- of two beginnings of one timetable one goes on where the other one ends
  have hagree : marks c s.history = marks c' s'.history ∧
      (starts (timetable c 0 p) = starts (timetable c' 0 p') → y.isRunning = y'.isRunning) := by
    rw [timetable_append, timetable_append, helapsed, Nat.zero_add] at hdeeds
    rcases List.append_eq_append_iff.mp hdeeds with ⟨late, hlate, hrest⟩ | ⟨late, hlate, hrest⟩
    · rw [hlate] at hlives' ⊢
      exact hlives.agree hlives' hblank fun e he =>
        le_of_mem_timetable (hrest ▸ List.mem_append_left _ he)
    · rw [hlate] at hlives ⊢
      obtain ⟨hmarks, hrunning⟩ := hlives'.agree hlives hblank.symm fun e he =>
        le_of_mem_timetable (hrest ▸ List.mem_append_left _ he)
      exact ⟨hmarks.symm, fun h => (hrunning h.symm).symm⟩
  refine ⟨hagree.1, fun hstarts => ?_, fun x k l hx hl hz hended => ?_⟩
  · rw [hy, hy', Option.map_some, Option.map_some, hagree.2 hstarts]
  · have hlife := life_of_steps h₀ (create_fresh foreign sources) (after_steps h₀ p)
      (sees_of_loop hx hl)
    exact cancelled_of_ended hlife ((hs.valid c x hx).fits l (List.mem_of_getElem? hl)) hz hended

/-- A loop whose fetches fail, and the loop of a second collector in another service whose fetches
answer: the same marks, and both loops have ended at the same time. -/
theorem failing_loop_keeps_step :
    let failing : Fetch := ⟨some (.error (.internal "down")), 50, false⟩
    let answering : Fetch := ⟨some (.ok [⟨"ann", "ann@x"⟩]), 50, false⟩
    let stalling : Fetch := ⟨none, 0, false⟩
    let source : Source := ⟨.ofMillis 100, .ofMillis 80, [failing, stalling, failing]⟩
    let source' : Source := ⟨.ofMillis 100, .ofMillis 80, [answering, stalling, answering]⟩
    let other : Source := ⟨.ofMillis 30, .ofMillis 80, []⟩
    let commands : List Command := [.start 0 false, .advance 230, .cancel 0, .advance 10]
    let commands' : List Command :=
      [.start 0 false, .start 1 false, .advance 200, .cancel 0, .advance 30, .cancel 1, .gather 0,
        .advance 10]
    let s := (create {} [source]).after commands
    let s' := (create {} [other, source']).after commands'
    timetable 0 0 commands = timetable 1 0 commands' ∧ s.time = s'.time ∧
      marks 0 s.history = marks 1 s'.history ∧
      marks 0 s.history = [(230, .abandoned), (200, .fetch), (180, .abandoned), (100, .fetch),
        (50, .done), (0, .fetch)] ∧
      s.collectors[0]?.map Collector.isRunning = s'.collectors[1]?.map Collector.isRunning := by
  intro failing answering stalling source source' other commands commands' s s'
  have hscript : List.Forall₂ Fetch.SamePace source.script source'.script :=
    .cons ⟨by simp [failing, answering], fun _ => rfl, rfl⟩ (.cons ⟨Iff.rfl, fun _ => rfl, rfl⟩
      (.cons ⟨by simp [failing, answering], fun _ => rfl, rfl⟩ .nil))
  have hdeeds : timetable 0 0 commands = timetable 1 0 commands' := by
    decide +kernel
  have htime : s.time = s'.time := by
    decide +kernel
  obtain ⟨hmarks, hrunning, -⟩ := schedule_ignores_answers {} {} [source] [other, source'] 0 1
    source source' commands commands' commands commands' rfl rfl (by decide +kernel)
    (by decide +kernel) rfl rfl hscript (by decide) (by decide) hdeeds List.prefix_rfl
    List.prefix_rfl htime
  exact ⟨hdeeds, htime, hmarks, by decide +kernel, hrunning (by rw [hdeeds])⟩

end AccountCensus.Service
