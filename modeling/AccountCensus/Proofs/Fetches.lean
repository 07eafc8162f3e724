import AccountCensus.Proofs.Ledger
import Mathlib.Data.List.Infix

/-!
# No fetch is lost

Where a collector has one loop at a time, the loop that goes on is the one to join (`Tidy`), so
that between commands a fetch in flight is one of the running loop. Which fetch an entry ends is
told by `EndsFetch`: the last one that was noted of the same loop, or of the foreground. With the
ledger this accounts for all fetches of a collector (`fetches_are_conserved`).
-/

namespace AccountCensus.Service

/-! ## One loop at a time -/

/-- Loops of a collector may have ended, and none was started or joined. -/
structure Wanes (x y : Collector) : Prop where
  joinable : y.joinable = x.joinable
  live : ∀ (k : ℕ) (l' : Loop), y.loops[k]? = some l' → l'.isLive = true →
    ∃ l, x.loops[k]? = some l ∧ l.isLive = true

namespace Wanes

variable {x y z : Collector}

theorem refl (x : Collector) : Wanes x x := ⟨rfl, fun _ l hl hlive => ⟨l, hl, hlive⟩⟩

theorem trans (h : Wanes x y) (h' : Wanes y z) : Wanes x z := by
  refine ⟨h'.joinable.trans h.joinable, fun k l hl hlive => ?_⟩
  obtain ⟨l', hl', hlive'⟩ := h'.live k l hl hlive
  exact h.live k l' hl' hlive'

/-- The token was perhaps cancelled. -/
theorem told {b : Bool} (hjoin : y.joinable = x.joinable)
    (hloops : y.loops = x.loops.map (Loop.told b)) : Wanes x y := by
  refine ⟨hjoin, fun k l' hl' hlive => ?_⟩
  rw [hloops, List.getElem?_map] at hl'
  obtain ⟨l, hl, rfl⟩ := Option.map_eq_some_iff.mp hl'
  exact ⟨l, hl, hlive⟩

/-- A loop that was live takes a turn. -/
theorem turned {k : ℕ} {l : Loop} (hl : x.loops[k]? = some l) (hlive : l.isLive = true)
    (phase : Phase) (began : Bool) :
    Wanes x ((bif began then x.beginFetch.1 else x).setPhase k phase) := by
  constructor
  · cases began <;> simp
  · intro j l' hl' hlive'
    rw [Collector.turned_getElem?] at hl'
    obtain ⟨m, hm, rfl⟩ := Option.map_eq_some_iff.mp hl'
    by_cases hj : j = k
    · subst hj
      exact ⟨l, hl, hlive⟩
    · rw [if_neg hj] at hlive'
      exact ⟨m, hm, hlive'⟩

end Wanes

/-- A loop that goes on is the one to join. -/
def Collector.Tidy (x : Collector) : Prop :=
  ∀ (k : ℕ) (l : Loop), x.loops[k]? = some l → l.isLive = true → x.joinable = some k

theorem Wanes.tidy {x y : Collector} (h : Wanes x y) (hx : x.Tidy) : y.Tidy := by
  intro k l hl hlive
  obtain ⟨l', hl', hlive'⟩ := h.live k l hl hlive
  rw [h.joinable]
  exact hx k l' hl' hlive'

/-- A loop that is started while no other one goes on is the one to join. -/
theorem Collector.start_tidy {x : Collector} {fresh : Bool}
    (hone : (x.start fresh).loops.countP Loop.isLive ≤ 1) : (x.start fresh).Tidy := by
  have hnone : x.loops.countP Loop.isLive = 0 := by
    simpa [Collector.start, Loop.isLive] using hone
  intro k l hl hlive
  rcases List.mem_append.mp (List.mem_of_getElem? hl) with hmem | hmem
  · exact absurd hlive (List.countP_eq_zero.mp hnone l hmem)
  · -- it stands behind all loops of before
    have hk : ¬ k < x.loops.length := by
      intro hk
      rw [Collector.start, List.getElem?_append_left hk] at hl
      exact List.countP_eq_zero.mp hnone l (List.mem_of_getElem? hl) hlive
    have hlt := (List.getElem?_eq_some_iff.mp hl).1
    simp only [Collector.start, List.length_append, List.length_singleton] at hlt
    show some x.loops.length = some k
    rw [show x.loops.length = k by omega]

/-- What becomes of collector `c` when collector `d` is changed. -/
theorem exists_of_modify {P : Collector → Prop} {xs : List Collector} {c d : ℕ}
    {f : Collector → Collector} {x : Collector} (hx : xs[c]? = some x) (hown : d = c → P (f x))
    (hother : P x) : ∃ y, (xs.modify d f)[c]? = some y ∧ P y := by
  rw [List.getElem?_modify, hx]
  by_cases hd : d = c
  · exact ⟨f x, by simp [hd], hown hd⟩
  · exact ⟨x, by simp [hd], hother⟩

section Tidy

variable {s : Service} {c : ℕ} {x : Collector}

theorem settle_wanes (deadline : ℕ) (hx : s.collectors[c]? = some x) :
    ∃ y, (s.settle deadline).collectors[c]? = some y ∧ Wanes x y := by
  refine settle_induction (P := fun s' => ∃ y, s'.collectors[c]? = some y ∧ Wanes x y) ?_
    ⟨x, hx, .refl x⟩
  rintro s' w ⟨y, hy, hwanes⟩ hw -
  obtain ⟨z, l, hs, phase, began, h⟩ := exists_woken hw
  rw [h.collectors]
  refine exists_of_modify hy (fun hc => hwanes.trans ?_) hwanes
  subst hc
  obtain rfl : z = y := Option.some.inj (h.collector.symm.trans hy)
  exact .turned h.loop (Loop.isLive_of_wakeTime? h.wakeTime) phase began

theorem rouse_wanes {d : ℕ} {f : Collector → Collector} (hx : s.collectors[c]? = some x)
    (hf : d = c → Wanes x (f x)) :
    ∃ y, (s.rouse d f).collectors[c]? = some y ∧ Wanes x y := by
  rw [rouse_collectors]
  exact exists_of_modify hx hf (.refl x)

theorem census_wanes {d : ℕ} {z : Collector} (hz : s.collectors[d]? = some z)
    (driver : Census.Driver) (hx : s.collectors[c]? = some x) :
    ∃ y, (s.census d driver).1.collectors[c]? = some y ∧ Wanes x y := by
  have hbegan : ∃ y, (s.beginCensus d z).collectors[c]? = some y ∧ Wanes x y := by
    rw [beginCensus_collectors]
    refine exists_of_modify hx (fun hd => ?_) (.refl x)
    subst hd
    obtain rfl : z = x := Option.some.inj (hz.symm.trans hx)
    exact .told z.beginFetch_joinable z.beginFetch_loops
  obtain ⟨y, hy, hwanes⟩ := hbegan
  rw [census_eq hz, noteAll_collectors]
  unfold awaited
  dsimp only
  split
  · exact ⟨y, hy, hwanes⟩
  · obtain ⟨y', hy', hwanes'⟩ := settle_wanes _ hy
    exact ⟨y', hy', hwanes.trans hwanes'⟩

/-- A loop is forgotten only when it has ended. -/
theorem forget_tidy (d : ℕ) (hend : (s.endOf d).isSome = true) (hx : s.collectors[c]? = some x)
    (htidy : x.Tidy) : ∃ y, (s.forget d).collectors[c]? = some y ∧ y.Tidy := by
  refine exists_of_modify hx (fun hd k l hl hlive => ?_) htidy
  subst hd
  rw [endOf_eq hx (htidy k l hl hlive) hl] at hend
  unfold Loop.end? at hend
  unfold Loop.isLive at hlive
  cases hp : l.phase <;> simp [hp] at hend hlive

theorem join_tidy (d : ℕ) (hx : s.collectors[c]? = some x) (htidy : x.Tidy) :
    ∃ y, (s.join d).1.collectors[c]? = some y ∧ y.Tidy := by
  obtain ⟨y, hy, hwanes⟩ := settle_wanes (s.time + 1) hx
  unfold join
  split
  · exact ⟨x, hx, htidy⟩
  · split
    · rename_i hend
      exact forget_tidy d (by rw [hend]; rfl) hx htidy
    · dsimp only
      split
      · rename_i hend
        exact forget_tidy d (by rw [hend]; rfl) hy (hwanes.tidy htidy)
      · exact ⟨y, hy, hwanes.tidy htidy⟩

/-- **A command keeps a collector tidy**, if it leaves it with one loop at most. -/
theorem perform_tidy (command : Command) (hx : s.collectors[c]? = some x) (htidy : x.Tidy)
    (hone : ∀ y, (s.perform command).1.collectors[c]? = some y →
      y.loops.countP Loop.isLive ≤ 1) :
    ∃ y, (s.perform command).1.collectors[c]? = some y ∧ y.Tidy := by
  have heffect := s.perform_effect command
  generalize s.perform command = result at heffect hone ⊢
  have hkept : (∃ y, result.1.collectors[c]? = some y ∧ Wanes x y) →
      ∃ y, result.1.collectors[c]? = some y ∧ y.Tidy := by
    rintro ⟨y, hy, hwanes⟩
    exact ⟨y, hy, hwanes.tidy htidy⟩
  cases heffect with
  | none _ => exact ⟨x, hx, htidy⟩
  | @start d fresh _ =>
      by_cases hd : d = c
      · subst hd
        have hy : (s.rouse d (·.start fresh)).collectors[d]? = some (x.start fresh) := by
          simp [hx]
        exact ⟨_, hy, Collector.start_tidy (hone _ hy)⟩
      · exact hkept (rouse_wanes hx fun h => absurd h hd)
  | cancel d => exact hkept (rouse_wanes hx fun _ => .told rfl x.cancel_loops)
  | advance millis => exact hkept (settle_wanes _ hx)
  | join d => exact join_tidy d hx htidy
  | census hcensus hz => exact hkept (census_wanes hz _ hx)

end Tidy

theorem after_tidy {foreign : Gauge.Registry} {sources : List Source} {c : ℕ}
    {commands : List Command} (hc : c < sources.length)
    (hone : ∀ p, p <+: commands → ∀ x, ((create foreign sources).after p).collectors[c]? = some x →
      x.loops.countP Loop.isLive ≤ 1) :
    ∃ x, ((create foreign sources).after commands).collectors[c]? = some x ∧ x.Tidy := by
  induction commands using List.reverseRecOn with
  | nil =>
      have hc' : c < (create foreign sources).collectors.length := by
        simpa [create] using hc
      refine ⟨_, List.getElem?_eq_getElem hc', fun k l hl => ?_⟩
      rw [create_fresh foreign sources _ (List.getElem_mem hc')] at hl
      cases hl
  | append_singleton commands command ih =>
      obtain ⟨x, hx, htidy⟩ := ih fun p hp => hone p (hp.trans (List.prefix_append ..))
      have hlast := hone _ (List.prefix_refl _)
      rw [after_snoc] at hlast ⊢
      exact perform_tidy command hx htidy hlast

theorem Loop.isLive_of_isFetching {l : Loop} (h : l.isFetching = true) : l.isLive = true := by
  unfold isFetching at h
  unfold isLive
  cases hp : l.phase <;> simp [hp] at h ⊢

namespace Collector.Tidy

variable {x : Collector} (hx : x.Tidy)
include hx

theorem fetching {k : ℕ} {l : Loop} (hl : x.loops[k]? = some l) (h : l.isFetching = true) :
    x.joinable = some k ∧ x.isRunning = true := by
  have hlive := Loop.isLive_of_isFetching h
  have hjoin := hx k l hl hlive
  refine ⟨hjoin, ?_⟩
  rw [isRunning, joined?, hjoin, Option.bind_some, hl]
  exact hlive

theorem inFlight_of_not_running (h : x.isRunning = false) : x.inFlight = 0 := by
  rw [inFlight, List.countP_eq_zero]
  intro l hmem hfetching
  obtain ⟨k, hl⟩ := List.getElem?_of_mem hmem
  rw [(hx.fetching hl hfetching).2] at h
  cases h

end Collector.Tidy

theorem Collector.inFlight_le (x : Collector) : x.inFlight ≤ x.loops.countP Loop.isLive :=
  List.countP_mono_left fun _ _ h => Loop.isLive_of_isFetching h

/-! ## Which fetch an entry ends -/

/-- Two entries about the same loop, or about the foreground of the same collector. -/
def Record.Beside (r q : Record) : Prop := q.collector = r.collector ∧ q.loop = r.loop

/-- Entry `i` of a history ends the fetch that the earlier entry `j` begins: there is nothing
about the same loop, or the same foreground, between them. -/
def EndsFetch (records : List Record) (i j : ℕ) : Prop :=
  i < j ∧ ∃ r b, records[i]? = some r ∧ records[j]? = some b ∧ r.Beside b ∧
    (∃ answered, r.happening = .fetchEnded answered) ∧ (∃ f, b.happening = .fetchBegan f) ∧
    ∀ (m : ℕ) (q : Record), i < m → m < j → records[m]? = some q → ¬ r.Beside q

section EndsFetch

variable {records : List Record} {i i' j j' : ℕ}

/-- Of two entries the one that is between the other and a third cannot be passed over. -/
theorem EndsFetch.le (h : EndsFetch records i j) (h' : EndsFetch records i j') : j ≤ j' := by
  obtain ⟨-, r, b, hr, -, -, -, -, hbetween⟩ := h
  obtain ⟨hlt, r', b', hr', hb', hbeside, -⟩ := h'
  obtain rfl : r = r' := Option.some.inj (hr.symm.trans hr')
  by_contra hgt
  exact hbetween j' b' hlt (not_le.mp hgt) hb' hbeside

/-- **An entry ends one fetch at most.** -/
theorem EndsFetch.unique (h : EndsFetch records i j) (h' : EndsFetch records i j') : j = j' :=
  le_antisymm (h.le h') (h'.le h)

theorem EndsFetch.le_of_began (h : EndsFetch records i j) (h' : EndsFetch records i' j) :
    i ≤ i' := by
  obtain ⟨hlt, r, b, hr, hb, ⟨hcollector, hloop⟩, -⟩ := h
  obtain ⟨-, r', b', hr', hb', ⟨hcollector', hloop'⟩, -, -, hbetween⟩ := h'
  obtain rfl : b = b' := Option.some.inj (hb.symm.trans hb')
  by_contra hgt
  exact hbetween i r (not_le.mp hgt) hlt hr
    ⟨hcollector.symm.trans hcollector', hloop.symm.trans hloop'⟩

/-- **A fetch is ended once at most.** -/
theorem EndsFetch.injective (h : EndsFetch records i j) (h' : EndsFetch records i' j) : i = i' :=
  le_antisymm (h.le_of_began h') (h'.le_of_began h)

end EndsFetch

/-- The entry that stands first in a trace. -/
theorem exists_first {r : Record} {t : ℕ} {h : Happening} {old : List (ℕ × Happening)} :
    ∀ {records : List Record}, trace r.collector r.loop records = (t, h) :: old →
    ∃ (j : ℕ) (b : Record), records[j]? = some b ∧ r.Beside b ∧ b.time = t ∧ b.happening = h ∧
      ∀ (m : ℕ) (q : Record), m < j → records[m]? = some q → ¬ r.Beside q
  | [], htrace => by simp [trace] at htrace
  | b :: records, htrace => by
      by_cases hb : r.Beside b
      · rw [← hb.1, ← hb.2, trace_cons_self] at htrace
        obtain ⟨hfirst, -⟩ := List.cons_eq_cons.mp htrace
        obtain ⟨htime, hhappening⟩ := Prod.mk.inj hfirst
        exact ⟨0, b, rfl, hb, htime, hhappening, fun m q hm => absurd hm (Nat.not_lt_zero m)⟩
      · have htail : trace r.collector r.loop (b :: records) =
            trace r.collector r.loop records :=
          List.filterMap_cons_none (if_neg hb)
        rw [htail] at htrace
        obtain ⟨j, b', hb', hbeside, htime, hhappening, hbetween⟩ := exists_first htrace
        refine ⟨j + 1, b', hb', hbeside, htime, hhappening, fun m q hm hq => ?_⟩
        cases m with
        | zero =>
            obtain rfl : b = q := Option.some.inj hq
            exact hb
        | succ m => exact hbetween m q (by omega) hq

/-- **An entry that ends a fetch ends an earlier one**, and an answer comes when that one gives
it. -/
theorem exists_endsFetch {records : List Record} {timeout : Duration} {i : ℕ} {r : Record}
    {answered : Bool}
    (hcoherent : Coherent timeout r.loop.isSome (trace r.collector r.loop records))
    (hr : records[i]? = some r) (hended : r.happening = .fetchEnded answered) :
    ∃ (j : ℕ) (b : Record) (f : Fetch), EndsFetch records i j ∧ records[j]? = some b ∧
      b.happening = .fetchBegan f ∧
      (answered = true → f.answer ≠ none ∧ r.time = b.time + f.delay) := by
  have hsplit : records = records.take i ++ r :: records.drop (i + 1) := by
    obtain ⟨hi, rfl⟩ := List.getElem?_eq_some_iff.mp hr
    rw [List.getElem_cons_drop, List.take_append_drop]
  rw [hsplit, trace_append, trace_cons_self, hended] at hcoherent
  obtain ⟨t, f, older, htrace, hanswer⟩ := hcoherent.tells
  obtain ⟨j, b, hb, hbeside, htime, hbegan, hbetween⟩ := exists_first htrace
  rw [List.getElem?_drop] at hb
  refine ⟨i + 1 + j, b, f, ⟨by omega, r, b, hr, hb, hbeside, ⟨answered, hended⟩, ⟨f, hbegan⟩,
    fun m q him hmj hq => ?_⟩, hb, hbegan, htime ▸ hanswer⟩
  refine hbetween (m - (i + 1)) q (by omega) ?_
  rw [List.getElem?_drop, show i + 1 + (m - (i + 1)) = m by omega, hq]

/-! ## Runs -/

theorem marks_sorted {s : Service} (hs : s.Chronological) (c : ℕ) :
    (marks c s.history).Pairwise fun e e' => e'.1 ≤ e.1 := by
  refine List.Pairwise.filterMap _ (fun r r' hle e he e' he' => ?_) hs.1
  have htime : ∀ {q : Record} {m : ℕ × Mark},
      (if q.collector = c then q.happening.mark?.map (q.time, ·) else none) = some m →
      m.1 = q.time := by
    intro q m hm
    split at hm
    · obtain ⟨k, -, rfl⟩ := Option.map_eq_some_iff.mp hm
      rfl
    · cases hm
  rw [htime he, htime he']
  exact hle

/-- **No fetch is lost, duplicated or overlapped.** Of any collector that has one loop at a time,
after any commands:

- its fetches were served by the items of its script, one after the other, and by no accounts once
  the script was used up; its marks are in order of time;
- the fetches that began are those that were answered, those that were abandoned and those that are
  in flight; at most one is in flight, it is the one that the running loop, the one to join, noted
  last, and there is none if no loop is running;
- each entry that ends a fetch ends one earlier fetch, and no other entry ends that one; an answer
  comes when its fetch gives it. -/
theorem fetches_are_conserved (foreign : Gauge.Registry) (sources : List Source)
    (commands : List Command) (c : ℕ) (source : Source) :
    let s := (create foreign sources).after commands
    let n := markCount .fetch c s.history
    sources[c]? = some source →
    (∀ p, p <+: commands → ∀ x, ((create foreign sources).after p).collectors[c]? = some x →
      x.loops.countP Loop.isLive ≤ 1) →
    ∃ x, s.collectors[c]? = some x ∧
      (fetches c s.history).reverse =
        (List.range n).map (fun i => source.script[i]?.getD .beyond) ∧
      (marks c s.history).Pairwise (fun e e' => e'.1 ≤ e.1) ∧
      n = markCount .done c s.history + markCount .abandoned c s.history + x.inFlight ∧
      x.inFlight ≤ 1 ∧
      (∀ (k : ℕ) (l : Loop), x.loops[k]? = some l → l.isFetching = true →
        x.joinable = some k ∧ x.isRunning = true ∧
        ∃ t f old, trace c (some k) s.history = (t, .fetchBegan f) :: old) ∧
      (x.isRunning = false → x.inFlight = 0) ∧
      ∀ (i : ℕ) (r : Record) (answered : Bool), s.history[i]? = some r → r.collector = c →
        r.happening = .fetchEnded answered →
        ∃ (j : ℕ) (b : Record) (f : Fetch), EndsFetch s.history i j ∧ s.history[j]? = some b ∧
          b.happening = .fetchBegan f ∧
          (answered = true → f.answer ≠ none ∧ r.time = b.time + f.delay) ∧
          (∀ j', EndsFetch s.history i j' → j' = j) ∧
          ∀ i', EndsFetch s.history i' j → i' = i := by
  intro s n hsource hone
  have h₀ := create_orderly foreign sources
  have hsteps := after_steps h₀ commands
  obtain ⟨x, hx, htidy⟩ := after_tidy (List.getElem?_eq_some_iff.mp hsource).1 hone
  have hledger := after_ledger foreign sources commands c x hx
  have hlive : x.loops.countP Loop.isLive ≤ 1 := hone commands List.prefix_rfl x hx
  refine ⟨x, hx, ?_, ?_, hledger, x.inFlight_le.trans hlive, fun k l hl hfetching => ?_,
    htidy.inFlight_of_not_running, fun i r answered hr hc hended => ?_⟩
  · have hdrawn := (steps_induction (fun h hs => h.followsScripts hs) hsteps
      (create_followsScripts foreign sources)).2 c x source hx hsource
    show _ = (List.range (markCount .fetch c s.history)).map _
    rw [markCount_fetch]
    exact hdrawn.2
  · exact marks_sorted (steps_induction (fun h hs => h.chronological hs) hsteps
      (create_chronological foreign sources)) c
  · obtain ⟨hjoin, hrunning⟩ := htidy.fetching hl hfetching
    refine ⟨hjoin, hrunning, ?_⟩
    have hcourse := after_course foreign sources commands hx hl
    unfold Loop.isFetching at hfetching
    cases hp : l.phase with
    | fetching due finish e =>
        rw [hp] at hcourse
        generalize trace c (some k) _ = tr at hcourse ⊢
        cases hcourse with
        | fetching _ => exact ⟨_, _, _, rfl⟩
    | _ => simp [hp] at hfetching
  · subst hc
    obtain ⟨j, b, f, hends, hb, hbegan, hanswer⟩ :=
      exists_endsFetch (after_coherent foreign sources commands r.collector r.loop) hr hended
    exact ⟨j, b, f, hends, hb, hbegan, hanswer, fun j' h => h.unique hends,
      fun i' h => h.injective hends⟩

/-- A direct call waits 50 ms for its answer, and meanwhile the loop begins a fetch that stalls: of
the two fetches one was answered, and the other one is in flight. -/
theorem call_beside_stalled_loop :
    let answering : Fetch := ⟨some (.ok []), 50, false⟩
    let sources : List Source :=
      [⟨.ofMillis 1000, .ofMillis 80, [answering, ⟨none, 0, false⟩]⟩]
    let commands : List Command := [.start 0 false, .get 0]
    let s := (create {} sources).after commands
    (∀ p, p <+: commands → ∀ x, ((create {} sources).after p).collectors[0]? = some x →
      x.loops.countP Loop.isLive ≤ 1) ∧
    marks 0 s.history = [(50, .done), (0, .fetch), (0, .fetch)] ∧
    ∃ x, s.collectors[0]? = some x ∧ x.inFlight = 1 := by
  intro answering sources commands s
  have hone : ∀ p, p <+: commands → ∀ x,
      ((create {} sources).after p).collectors[0]? = some x →
      x.loops.countP Loop.isLive ≤ 1 := by
    have hall : ∀ p ∈ commands.inits, (((create {} sources).after p).collectors[0]?).all
        (fun x => x.loops.countP Loop.isLive ≤ 1) = true := by
      decide +kernel
    intro p hp x hx
    have hp' := hall p ((List.mem_inits _ _).mpr hp)
    rw [hx] at hp'
    exact of_decide_eq_true hp'
  have hmarks : marks 0 s.history = [(50, .done), (0, .fetch), (0, .fetch)] := by
    decide +kernel
  obtain ⟨x, hx, -, -, hledger, -⟩ :=
    fetches_are_conserved {} sources commands 0 _ rfl hone
  have hcount : ∀ m, markCount m 0 s.history =
      [(50, Mark.done), (0, .fetch), (0, .fetch)].countP fun e => e.2 = m := by
    intro m
    rw [← hmarks]
    rfl
  refine ⟨hone, hmarks, x, hx, ?_⟩
  change markCount .fetch 0 s.history =
    markCount .done 0 s.history + markCount .abandoned 0 s.history + x.inFlight at hledger
  rw [hcount, hcount, hcount] at hledger
  change 2 = 1 + 0 + x.inFlight at hledger
  omega

end AccountCensus.Service
