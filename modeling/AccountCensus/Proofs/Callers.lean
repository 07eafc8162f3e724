import AccountCensus.Proofs.Registration
import Mathlib.Data.List.Count
import Mathlib.Data.List.Induction
import Mathlib.Logic.Relation

/-!
# Callers of the login gauges

Callers may come one after the other or all at once. Of those that come at once, one registers the
gauges, gauge by gauge, and the others wait until the outcome is there; `Crowd.Step` lets any
caller that can do something do it next. However they interleave, they end (`Step.rank_lt`), with
an answer for each (`exists_step`), where as many requests in a row would have ended
(`answers_of_stuck`).

A session is a whole life of the metrics: callers, crowds of them, holders that set the gauges, and
scrapes. Beside it stands a naive account that knows no registry; `shows_of_free` and
`refuses_of_taken` read the session off that account.
-/

namespace AccountCensus.Gauge

/-! ## Callers at once -/

/-- How far the caller has come that registers the gauges. -/
inductive Work where
  | adding (added left : List Metric)
  | removing (left : List Metric)

namespace Work

/-- What the rest of the work makes of a registry. -/
def result (w : Work) (r : Registry) : Registry × Bool :=
  match w with
  | .adding added left => r.registerFrom added left
  | .removing left => (r.rollBack left, false)

/-- The steps that are left, at most. -/
def rank : Work → Nat
  | .adding added left => added.length + 2 * left.length + 1
  | .removing left => left.length + 1

end Work

/-- Callers that ask for the login gauges at once. -/
structure Crowd where
  metrics : Metrics
  /-- The caller that registers the gauges, while it does. -/
  work : Option (Nat × Work) := none
  /-- What each caller got, once it got it. -/
  answers : List (Option (Except RegistrationError Unit))

namespace Crowd

def ask (m : Metrics) (callers : Nat) : Crowd :=
  { metrics := m, answers := List.replicate callers none }

/-- One caller does its next thing. While one of them registers the gauges the others have none:
they wait for the outcome. -/
inductive Step : Crowd → Crowd → Prop
  | enter {q : Crowd} {i : Nat} : q.metrics.outcome = none → q.work = none →
      q.answers[i]? = some none →
      Step q { q with work := some (i, .adding [] loginGauges) }
  | add {q : Crowd} {i : Nat} {added left : List Metric} {g : Metric} {r : Registry} :
      q.work = some (i, .adding added (g :: left)) → q.metrics.registry.register g = some r →
      Step q { q with
        metrics := { q.metrics with registry := r }
        work := some (i, .adding (added ++ [g]) left) }
  | clash {q : Crowd} {i : Nat} {added left : List Metric} {g : Metric} :
      q.work = some (i, .adding added (g :: left)) → q.metrics.registry.register g = none →
      Step q { q with work := some (i, .removing added) }
  | remove {q : Crowd} {i : Nat} {left : List Metric} {g : Metric} :
      q.work = some (i, .removing (g :: left)) →
      Step q { q with
        metrics := { q.metrics with
          registry := (q.metrics.registry.unregister g.name).getD q.metrics.registry }
        work := some (i, .removing left) }
  | succeed {q : Crowd} {i : Nat} {added : List Metric} : q.work = some (i, .adding added []) →
      Step q { q with metrics := { q.metrics with outcome := some (.ok ()) }, work := none }
  | fail {q : Crowd} {i : Nat} : q.work = some (i, .removing []) →
      Step q { q with
        metrics := { q.metrics with outcome := some (.error .nameTaken) }, work := none }
  | answer {q : Crowd} {i : Nat} {outcome : Except RegistrationError Unit} :
      q.metrics.outcome = some outcome → q.answers[i]? = some none →
      Step q { q with answers := q.answers.set i (some outcome) }

/-- Nobody has anything to do. -/
def Stuck (q : Crowd) : Prop := ∀ q', ¬ Step q q'

/-- Every interleaving is on its way to the state that one request leads to. -/
structure Sound (m : Metrics) (q : Crowd) : Prop where
  answered : ∀ a ∈ q.answers, a = none ∨ a = some m.request.2
  decided : (∃ a ∈ q.answers, a ≠ none) → q.metrics.outcome ≠ none
  idle : q.work = none → q.metrics = m ∨ q.metrics = m.request.1
  busy : ∀ i w, q.work = some (i, w) → m.outcome = none ∧ q.metrics.outcome = none ∧
    w.result q.metrics.registry = m.registry.registerAll loginGauges

theorem ask_sound (m : Metrics) (n : Nat) : Sound m (ask m n) where
  answered := fun a ha => Or.inl (List.eq_of_mem_replicate ha)
  decided := by
    rintro ⟨a, ha, hne⟩
    exact absurd (List.eq_of_mem_replicate ha) hne
  idle := fun _ => Or.inl rfl
  busy := by simp [ask]

/-- A part of the work that leaves its result alone. -/
theorem Sound.goOn {m : Metrics} {q : Crowd} {i : Nat} {w w' : Work} {r : Registry}
    (hq : Sound m q) (hwork : q.work = some (i, w))
    (hres : w'.result r = w.result q.metrics.registry) :
    Sound m { q with metrics := { q.metrics with registry := r }, work := some (i, w') } := by
  obtain ⟨hm, hnone, hall⟩ := hq.busy _ _ hwork
  refine ⟨hq.answered, hq.decided, by simp, ?_⟩
  rintro j v hv
  cases hv
  exact ⟨hm, hnone, hres.trans hall⟩

/-- The end of the work: the outcome is that of one request. -/
theorem Sound.decide {m : Metrics} {q : Crowd} {i : Nat} {w : Work} {all : Bool}
    (hq : Sound m q) (hwork : q.work = some (i, w))
    (hres : w.result q.metrics.registry = (q.metrics.registry, all)) :
    Sound m { q with
      metrics := { q.metrics with
        outcome := some (if all then .ok () else .error .nameTaken) }
      work := none } := by
  obtain ⟨hm, -, hall⟩ := hq.busy _ _ hwork
  have hrequest := Metrics.request_of_registerAll hm (hall.symm.trans hres)
  exact ⟨hq.answered, by simp, fun _ => Or.inr hrequest.symm, by simp⟩

/-- **Every step keeps to the way**: the one that works does the next part of a registration, and
the others only take over an outcome that is there. -/
theorem Step.sound {m : Metrics} {q q' : Crowd} (h : Step q q') (hq : Sound m q) :
    Sound m q' := by
  cases h with
  | @enter i hnone hidle hi =>
      have hm : q.metrics = m := by
        rcases hq.idle hidle with hm | hm
        · exact hm
        · rw [hm, Metrics.request_outcome] at hnone
          cases hnone
      refine ⟨hq.answered, hq.decided, by simp, ?_⟩
      rintro j w hw
      cases hw
      exact ⟨hm ▸ hnone, hnone, by rw [hm]; rfl⟩
  | add hwork hreg =>
      refine hq.goOn hwork ?_
      simp only [Work.result, Registry.registerFrom, hreg]
  | clash hwork hreg =>
      refine hq.goOn hwork ?_
      simp only [Work.result, Registry.registerFrom, hreg]
  | remove hwork =>
      refine hq.goOn hwork ?_
      simp only [Work.result, Registry.rollBack, List.foldl_cons]
  | succeed hwork => exact hq.decide hwork rfl
  | fail hwork => exact hq.decide hwork rfl
  | @answer i outcome hout hi =>
      -- there is no outcome yet while somebody works
      have hidle : q.work = none := by
        cases hw : q.work with
        | none => rfl
        | some w =>
            have hnone := (hq.busy _ _ hw).2.1
            rw [hout] at hnone
            cases hnone
      have hsame : outcome = m.request.2 := by
        rcases hq.idle hidle with hm | hm
        · rw [Metrics.request_again (hm ▸ hout)]
        · rw [hm, Metrics.request_outcome] at hout
          exact (Option.some.inj hout).symm
      refine ⟨?_, ?_, hq.idle, hq.busy⟩
      · intro a ha
        rcases List.mem_or_eq_of_mem_set ha with ha | rfl
        · exact hq.answered a ha
        · exact Or.inr (by rw [hsame])
      · rintro -
        show q.metrics.outcome ≠ none
        rw [hout]
        simp

theorem Step.length {q q' : Crowd} (h : Step q q') : q'.answers.length = q.answers.length := by
  cases h <;> simp

/-- The steps that are left, at most: one for each caller without an answer, and the work. -/
def rank (q : Crowd) : Nat :=
  q.answers.countP Option.isNone +
    match q.work with
    | some (_, w) => w.rank
    | none => if q.metrics.outcome = none then 2 * loginGauges.length + 2 else 0

theorem Step.rank_lt {q q' : Crowd} (h : Step q q') : q'.rank < q.rank := by
  cases h with
  | enter hnone hidle _ => simp [rank, hnone, hidle, Work.rank]
  | add hwork _ =>
      simp only [rank, hwork, Work.rank, List.length_append, List.length_cons, List.length_nil]
      omega
  | clash hwork _ =>
      simp only [rank, hwork, Work.rank, List.length_cons]
      omega
  | remove hwork =>
      simp only [rank, hwork, Work.rank, List.length_cons]
      omega
  | succeed hwork => simp [rank, hwork, Work.rank]
  | fail hwork => simp [rank, hwork, Work.rank]
  | @answer i outcome hout hi =>
      obtain ⟨hlt, hget⟩ := List.getElem?_eq_some_iff.mp hi
      have hpos : 0 < q.answers.countP Option.isNone :=
        List.countP_pos_iff.mpr ⟨none, hget ▸ List.getElem_mem hlt, rfl⟩
      have hcount : (q.answers.set i (some outcome)).countP Option.isNone =
          q.answers.countP Option.isNone - 1 := by
        rw [List.countP_set hlt, hget]
        rfl
      exact Nat.add_lt_add_right (by rw [hcount]; omega) _

/-- No crowd is held up: while a caller waits, somebody has something to do. -/
theorem exists_step {q : Crowd} (h : none ∈ q.answers) : ∃ q', Step q q' := by
  obtain ⟨i, hi⟩ := List.getElem?_of_mem h
  cases hwork : q.work with
  | none =>
      cases hout : q.metrics.outcome with
      | none => exact ⟨_, .enter hout hwork hi⟩
      | some outcome => exact ⟨_, .answer hout hi⟩
  | some work =>
      obtain ⟨j, w⟩ := work
      cases w with
      | adding added left =>
          cases left with
          | nil => exact ⟨_, .succeed hwork⟩
          | cons g left =>
              cases hreg : q.metrics.registry.register g with
              | none => exact ⟨_, .clash hwork hreg⟩
              | some r => exact ⟨_, .add hwork hreg⟩
      | removing left =>
          cases left with
          | nil => exact ⟨_, .fail hwork⟩
          | cons g left => exact ⟨_, .remove hwork⟩

open Relation in
theorem reachable_sound {m : Metrics} {n : Nat} {q : Crowd}
    (h : ReflTransGen Step (ask m n) q) : Sound m q ∧ q.answers.length = n := by
  induction h with
  | refl => exact ⟨ask_sound m n, List.length_replicate⟩
  | tail _ hstep ih => exact ⟨hstep.sound ih.1, hstep.length.trans ih.2⟩

theorem ask_nobody_stuck (m : Metrics) : (ask m 0).Stuck := by
  intro q' h
  cases h <;> simp_all [ask]

open Relation in
/-- **All interleavings end alike**: a crowd that has come to its end left the metrics, and got
the answers, of as many requests in a row. -/
theorem answers_of_stuck {m : Metrics} {n : Nat} {q : Crowd}
    (h : ReflTransGen Step (ask m n) q) (hstuck : q.Stuck) :
    q.metrics = (m.requests n).1 ∧ q.answers = (m.requests n).2.map some := by
  cases n with
  | zero =>
      -- nobody came, so nothing can have happened
      rcases ReflTransGen.cases_head h with rfl | ⟨q₁, hstep, _⟩
      · exact ⟨rfl, rfl⟩
      · exact absurd hstep (ask_nobody_stuck m q₁)
  | succ n =>
      obtain ⟨hq, hlen⟩ := reachable_sound h
      have hnone : none ∉ q.answers := fun hmem => by
        obtain ⟨q', hstep⟩ := exists_step hmem
        exact hstuck q' hstep
      have hall : ∀ a ∈ q.answers, a = some m.request.2 := by
        intro a ha
        rcases hq.answered a ha with rfl | h
        · exact absurd ha hnone
        · exact h
      have hout : q.metrics.outcome ≠ none := by
        have hmem : q.answers[0] ∈ q.answers := List.getElem_mem _
        exact hq.decided ⟨_, hmem, fun h => hnone (h ▸ hmem)⟩
      have hidle : q.work = none := by
        cases hw : q.work with
        | none => rfl
        | some w => exact absurd (hq.busy _ _ hw).2.1 hout
      rw [Metrics.requests_succ]
      constructor
      · rcases hq.idle hidle with hm | hm
        · obtain ⟨outcome, hsome⟩ := Option.ne_none_iff_exists'.mp (hm ▸ hout)
          rw [Metrics.request_again hsome, hm]
        · exact hm
      · rw [List.map_replicate, List.eq_replicate_iff]
        exact ⟨hlen, hall⟩

end Crowd

/-! ## Sessions -/

/-- What is done with the metrics. -/
inductive Call where
  | request
  | concurrent (callers : Nat)
  /-- The holder that came in this place sets the gauges, if it got them. -/
  | set (holder : Nat) (t : Tally)
  | gather

/-- The metrics, and what their callers got in the order in which they came. -/
structure Session where
  metrics : Metrics
  holders : List (Except RegistrationError Unit) := []

namespace Session

def perform (s : Session) : Call → Session
  | .request => ⟨s.metrics.request.1, s.holders ++ [s.metrics.request.2]⟩
  | .concurrent n => ⟨(s.metrics.requests n).1, s.holders ++ (s.metrics.requests n).2⟩
  | .set holder t =>
    match s.holders[holder]? with
    | some (.ok ()) => { s with metrics := s.metrics.publish t }
    | _ => s
  | .gather => s

/-- The session of a registry after some calls. -/
def after (r : Registry) (calls : List Call) : Session :=
  calls.foldl perform { metrics := { registry := r } }

theorem after_snoc (r : Registry) (calls : List Call) (call : Call) :
    after r (calls ++ [call]) = (after r calls).perform call := by
  unfold after
  rw [List.foldl_append]
  rfl

end Session

/-! ## The naive account of a session

It keeps two things only, how many callers came and which tally was set last, and knows nothing of
registries, work and outcomes. -/

structure Ledger where
  callers : Nat := 0
  tally : Tally := {}

namespace Ledger

def add (l : Ledger) : Call → Ledger
  | .request => { l with callers := l.callers + 1 }
  | .concurrent n => { l with callers := l.callers + n }
  | .set holder t => if holder < l.callers then { l with tally := t } else l
  | .gather => l

def ofCalls (calls : List Call) : Ledger := calls.foldl add {}

theorem ofCalls_snoc (calls : List Call) (call : Call) :
    ofCalls (calls ++ [call]) = (ofCalls calls).add call := by
  unfold ofCalls
  rw [List.foldl_append]
  rfl

end Ledger

namespace Session

/-- The state that the ledger stands for where the names are free: nothing is registered before
the first caller, and from there on the gauges show the tally that was set last. -/
structure Shows (r : Registry) (l : Ledger) (s : Session) : Prop where
  holders : s.holders = List.replicate l.callers (.ok ())
  unasked : l.callers = 0 → s.metrics = { registry := r } ∧ l.tally = {}
  asked : l.callers ≠ 0 →
    s.metrics = { registry := r.withLogin l.tally, outcome := some (.ok ()) }

theorem Shows.requests {r : Registry} {l : Ledger} {s : Session} (hfree : r.Free loginGauges)
    (h : Shows r l s) (n : Nat) :
    Shows r { l with callers := l.callers + n }
      ⟨(s.metrics.requests n).1, s.holders ++ (s.metrics.requests n).2⟩ := by
  by_cases hl : l.callers = 0
  · obtain ⟨hm, ht⟩ := h.unasked hl
    cases n with
    | zero => exact ⟨by simp [Metrics.requests, h.holders], fun _ => ⟨hm, ht⟩, by simp [hl]⟩
    | succ n =>
        have hreq : s.metrics.request =
            ({ registry := r.withLogin l.tally, outcome := some (.ok ()) }, .ok ()) := by
          rw [Metrics.request_first (by rw [hm]), hm, ht]
          simp only [Metrics.settled, Metrics.verdict, if_pos hfree]
        rw [Metrics.requests_succ, hreq]
        refine ⟨?_, by simp, fun _ => rfl⟩
        simp [h.holders, hl]
  · have hm := h.asked hl
    have hout : s.metrics.outcome = some (.ok ()) := by rw [hm]
    rw [Metrics.requests_again hout]
    refine ⟨?_, fun h0 => absurd h0 (by simp [hl]), fun _ => hm⟩
    rw [h.holders, List.replicate_append_replicate]

theorem Shows.perform {r : Registry} {l : Ledger} {s : Session} (hfree : r.Free loginGauges)
    (h : Shows r l s) (call : Call) : Shows r (l.add call) (s.perform call) := by
  cases call with
  | request => exact h.requests hfree 1
  | concurrent n => exact h.requests hfree n
  | gather => exact h
  | set holder t =>
      by_cases hlt : holder < l.callers
      · have hget : s.holders[holder]? = some (.ok ()) := by
          rw [h.holders, List.getElem?_replicate, if_pos hlt]
        have hl : l.callers ≠ 0 := by omega
        have hm := h.asked hl
        simp only [Ledger.add, if_pos hlt, Session.perform, hget]
        refine ⟨h.holders, fun h0 => absurd h0 hl, fun _ => ?_⟩
        have hreg := Metrics.publish_withLogin hfree (m := s.metrics) (by rw [hm]) t
        have hout : (s.metrics.publish t).outcome = some (.ok ()) := by
          rw [Metrics.publish_outcome, hm]
        show s.metrics.publish t = _
        cases hp : s.metrics.publish t
        rw [hp] at hreg hout
        exact congrArg₂ Metrics.mk hreg hout
      · have hget : s.holders[holder]? = none := by
          rw [h.holders, List.getElem?_replicate, if_neg hlt]
        simp only [Ledger.add, if_neg hlt, Session.perform, hget]
        exact h

/-- **Free names**: whatever was called, the session is the one that the ledger stands for. -/
theorem shows_of_free {r : Registry} (hfree : r.Free loginGauges) (calls : List Call) :
    Shows r (Ledger.ofCalls calls) (after r calls) := by
  induction calls using List.reverseRecOn with
  | nil => exact ⟨rfl, fun _ => ⟨rfl, rfl⟩, fun h => absurd rfl h⟩
  | append_singleton calls call ih =>
      rw [after_snoc, Ledger.ofCalls_snoc]
      exact ih.perform hfree call

/-- The state that the ledger stands for where a name is taken. -/
structure Refuses (r : Registry) (l : Ledger) (s : Session) : Prop where
  holders : s.holders = List.replicate l.callers (.error .nameTaken)
  registry : s.metrics.registry = r
  outcome : ∀ o, s.metrics.outcome = some o → o = .error .nameTaken

theorem Refuses.requests {r : Registry} {l : Ledger} {s : Session}
    (htaken : ¬ r.Free loginGauges) (h : Refuses r l s) (n : Nat) :
    Refuses r { l with callers := l.callers + n }
      ⟨(s.metrics.requests n).1, s.holders ++ (s.metrics.requests n).2⟩ := by
  have hreq : s.metrics.request.2 = .error .nameTaken ∧ s.metrics.request.1.registry = r := by
    cases hout : s.metrics.outcome with
    | none =>
        rw [Metrics.request_first hout, h.registry]
        simp only [Metrics.settled, Metrics.verdict, if_neg htaken, and_self]
    | some o =>
        rw [Metrics.request_again hout]
        exact ⟨h.outcome o hout, h.registry⟩
  cases n with
  | zero => exact ⟨by simp [Metrics.requests, h.holders], h.registry, h.outcome⟩
  | succ n =>
      rw [Metrics.requests_succ]
      refine ⟨?_, hreq.2, ?_⟩
      · rw [h.holders, hreq.1, List.replicate_append_replicate]
      · intro o ho
        rw [Metrics.request_outcome, hreq.1] at ho
        exact (Option.some.inj ho).symm

theorem Refuses.perform {r : Registry} {l : Ledger} {s : Session}
    (htaken : ¬ r.Free loginGauges) (h : Refuses r l s) (call : Call) :
    Refuses r (l.add call) (s.perform call) := by
  cases call with
  | request => exact h.requests htaken 1
  | concurrent n => exact h.requests htaken n
  | gather => exact h
  | set holder t =>
      have hsame : s.perform (.set holder t) = s := by
        have hno : s.holders[holder]? ≠ some (.ok ()) := by
          rw [h.holders, List.getElem?_replicate]
          split <;> simp
        simp only [Session.perform]
      have hcallers : (l.add (.set holder t)).callers = l.callers := by
        simp only [Ledger.add]
        split <;> rfl
      rw [hsame]
      exact ⟨hcallers ▸ h.holders, h.registry, h.outcome⟩

/-- **A taken name**: every caller gets the same error, and the registry is the foreign one all
along. -/
theorem refuses_of_taken {r : Registry} (htaken : ¬ r.Free loginGauges) (calls : List Call) :
    Refuses r (Ledger.ofCalls calls) (after r calls) := by
  induction calls using List.reverseRecOn with
  | nil => exact ⟨rfl, rfl, fun o ho => by cases ho⟩
  | append_singleton calls call ih =>
      rw [after_snoc, Ledger.ofCalls_snoc]
      exact ih.perform htaken call

end Session

open Relation in
/-- **Registration is all or nothing, happens once, and is shared.** Where the three names are
free every caller gets the gauges, from the first caller on the registry is the foreign one and
the gauges, each name once, and every gather and every holder sees the tally that any holder set
last. Where one of the names is taken every caller gets the same error and the registry is the
foreign one after every call. Callers that come at once change none of this, in whatever order
they do their things: they all get their answers, and the session goes on as after
`.concurrent`. -/
theorem registered_once_for_all (r : Registry) (hr : r.names.Nodup) (calls : List Call) :
    let s := Session.after r calls
    let l := Ledger.ofCalls calls
    (r.Free loginGauges →
      s.holders = List.replicate l.callers (.ok ()) ∧
      (l.callers = 0 → s.metrics.registry = r) ∧
      (l.callers ≠ 0 →
        s.metrics.registry = r.withLogin l.tally ∧ s.metrics.registry.names.Nodup ∧
        (r.broken = false →
          ∀ m ∈ s.metrics.registry.metrics, m.sampleLine ∈ s.metrics.registry.lines) ∧
        s.metrics.registry.readings =
          [some (clamp l.tally.duplicates), some (l.tally.flag : Int),
            some (clamp l.tally.mixedCased)])) ∧
    (¬ r.Free loginGauges →
      s.holders = List.replicate l.callers (.error .nameTaken) ∧ s.metrics.registry = r) ∧
    WellFounded (fun q' q => Crowd.Step q q') ∧
    ∀ (n : ℕ) (q : Crowd), ReflTransGen Crowd.Step (Crowd.ask s.metrics n) q →
      (none ∈ q.answers → ∃ q', Crowd.Step q q') ∧
      (q.Stuck →
        q.metrics = (Session.after r (calls ++ [.concurrent n])).metrics ∧
        s.holders.map some ++ q.answers =
          (Session.after r (calls ++ [.concurrent n])).holders.map some) := by
  intro s l
  refine ⟨?_, ?_, ?_, ?_⟩
  · intro hfree
    have h := Session.shows_of_free hfree calls
    refine ⟨h.holders, fun h0 => by rw [(h.unasked h0).1], fun h0 => ?_⟩
    have hreg : s.metrics.registry = r.withLogin l.tally := by rw [h.asked h0]
    rw [hreg]
    exact ⟨rfl, Registry.withLogin_nodup hfree hr _,
      fun hb m hm => Registry.sampleLine_mem_lines (r := r.withLogin l.tally) hb hm,
      Registry.readings_withLogin hfree _⟩
  · intro htaken
    have h := Session.refuses_of_taken htaken calls
    exact ⟨h.holders, h.registry⟩
  · exact Subrelation.wf (fun hstep => Crowd.Step.rank_lt hstep)
      (InvImage.wf Crowd.rank Nat.lt_wfRel.wf)
  · intro n q hreach
    refine ⟨Crowd.exists_step, fun hstuck => ?_⟩
    obtain ⟨hm, ha⟩ := Crowd.answers_of_stuck hreach hstuck
    rw [Session.after_snoc]
    exact ⟨hm, by rw [ha, ← List.map_append]; rfl⟩

/-- A counter outside the namespace that has the second gauge's full name: one early caller, three
at once and one late get the error, and the counter is left alone. -/
theorem registered_once_counter_in_the_way :
    let r : Registry :=
      { metrics := [⟨"grafana_stat_users_has_duplicate_user_entries", "", .counter, 7⟩] }
    let calls : List Call := [.request, .concurrent 3, .set 0 ⟨1, 1⟩, .gather, .request]
    r.names.Nodup ∧ ¬ r.Free loginGauges ∧
      (Session.after r calls).holders = List.replicate 5 (.error .nameTaken) ∧
      (Session.after r calls).metrics.registry = r := by
  intro r calls
  have hnodup : r.names.Nodup := by decide
  have htaken : ¬ r.Free loginGauges := by decide +kernel
  exact ⟨hnodup, htaken, (registered_once_for_all r hnodup calls).2.1 htaken⟩

end AccountCensus.Gauge
