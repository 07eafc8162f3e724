import AccountCensus.Proofs.Alone
import AccountCensus.Proofs.Foreground

/-!
# The ledger of fetches

A collector keeps a ledger of its fetches (`Ledger`): those that began are those that ended, those
that a loop has in flight, and the one that a census in the foreground waits for. Each turn of a
loop keeps it (`Turn.balance`), and a census in the foreground opens one fetch and ends it. Between
commands nothing is under way in the foreground, so that what began has ended or is in flight
(`after_ledger`).
-/

namespace AccountCensus.Service

/-! ## Counting -/

def Loop.isFetching (l : Loop) : Bool := l.phase matches .fetching ..

/-- How many marks of one kind a collector has left. -/
def markCount (m : Mark) (c : ℕ) (records : List Record) : ℕ :=
  (marks c records).countP fun e => e.2 = m

/-- How many marks of one kind some happenings leave. -/
def Mark.count (m : Mark) (hs : List Happening) : ℕ := hs.countP fun h => h.mark? = some m

@[simp] theorem Mark.count_nil (m : Mark) : m.count [] = 0 := rfl

@[simp] theorem Mark.count_cons (m : Mark) (h : Happening) (hs : List Happening) :
    m.count (h :: hs) = m.count hs + (if h.mark? = some m then 1 else 0) := by
  simp [count, List.countP_cons]

/-- A fetch that ends by itself ends once. -/
theorem Ending.count_happenings (e : Ending) (driver : Census.Driver) :
    Mark.fetch.count (e.happenings driver) = 0 ∧
      Mark.done.count (e.happenings driver) + Mark.abandoned.count (e.happenings driver) = 1 := by
  obtain ⟨after, answered, fetched⟩ := e
  cases answered <;> exact ⟨rfl, rfl⟩

theorem markCount_notes (m : Mark) (c t d : ℕ) (loop : Option ℕ) (hs : List Happening)
    (rs : List Record) :
    markCount m c ((hs.map (⟨t, d, loop, ·⟩)).reverse ++ rs) =
      (if d = c then m.count hs else 0) + markCount m c rs := by
  have hat : (marksAt t hs).countP (fun e => decide (e.2 = m)) = m.count hs := by
    rw [marksAt, List.countP_reverse, List.countP_map, List.countP_filterMap, Mark.count]
    congr 1
    funext h
    cases h.mark? <;> simp
  rw [markCount, marks_notes, List.countP_append]
  congr 1
  split
  · exact hat
  · rfl

theorem markCount_fetch (c : ℕ) (records : List Record) :
    markCount .fetch c records = (fetches c records).length := by
  rw [markCount, marks, fetches, List.countP_filterMap, List.length_filterMap_eq_countP]
  congr 1
  funext r
  by_cases hr : r.collector = c
  · rw [if_pos hr, if_pos hr]
    cases r.happening with
    | fetchEnded answered => cases answered <;> rfl
    | _ => rfl
  · rw [if_neg hr, if_neg hr]
    rfl

/-- The number of items that satisfy `p`, when one item changes. -/
theorem countP_modify {α : Type} (p : α → Bool) (f : α → α) : ∀ {xs : List α} {k : ℕ} {a : α},
    xs[k]? = some a →
    (xs.modify k f).countP p + (if p a then 1 else 0) =
      xs.countP p + (if p (f a) then 1 else 0)
  | [], _, _, h => by simp at h
  | x :: xs, 0, a, h => by
      obtain rfl : x = a := Option.some.inj h
      rw [List.modify_zero_cons, List.countP_cons, List.countP_cons]
      omega
  | x :: xs, k + 1, a, h => by
      have ih : (xs.modify k f).countP p + (if p a then 1 else 0) =
          xs.countP p + (if p (f a) then 1 else 0) := countP_modify p f h
      rw [List.modify_succ_cons, List.countP_cons, List.countP_cons]
      omega

/-! ## The ledger -/

namespace Collector

/-- How many loops have a fetch in flight. -/
def inFlight (x : Collector) : ℕ := x.loops.countP Loop.isFetching

theorem inFlight_told {x y : Collector} {b : Bool} (h : y.loops = x.loops.map (Loop.told b)) :
    y.inFlight = x.inFlight := by
  rw [inFlight, inFlight, h, List.countP_map]
  rfl

theorem inFlight_start (x : Collector) (fresh : Bool) : (x.start fresh).inFlight = x.inFlight := by
  simp [inFlight, start, Loop.isFetching]

theorem inFlight_setPhase {x : Collector} {k : ℕ} {l : Loop} (hl : x.loops[k]? = some l)
    (phase : Phase) :
    (x.setPhase k phase).inFlight + (if l.isFetching then 1 else 0) =
      x.inFlight + (if Loop.isFetching ⟨phase, l.cancelled⟩ then 1 else 0) :=
  countP_modify Loop.isFetching (fun l => { l with phase }) hl

end Collector

/-- **Each turn balances**: what it begins and does not end, it has in flight afterwards. -/
theorem Turn.balance {interval timeout : Duration} {now : ℕ} {f : Fetch} {l : Loop}
    {hs : List Happening} {phase : Phase} {began : Bool}
    (h : Turn interval timeout now f l hs phase began) (b : Bool) :
    Mark.fetch.count hs + (if l.isFetching then 1 else 0) =
      Mark.done.count hs + Mark.abandoned.count hs +
        (if Loop.isFetching ⟨phase, b⟩ then 1 else 0) := by
  cases h with
  | panic hp _ => simp [Loop.isFetching, hp, Happening.mark?]
  | start hp _ => simp [Loop.isFetching, hp, Happening.mark?]
  | stop hp _ => simp [Loop.isFetching, hp, Happening.mark?]
  | serve hp _ _ =>
      obtain ⟨hfetch, hend⟩ := (f.ending timeout).count_happenings .loop
      simp [Loop.isFetching, hp, Happening.mark?, hfetch, hend]
  | fetch hp _ _ => simp [Loop.isFetching, hp, Happening.mark?]
  | abandon hp _ => simp [Loop.isFetching, hp, Happening.mark?]
  | @finish _ _ e hp _ =>
      obtain ⟨hfetch, hend⟩ := e.count_happenings .loop
      simp [Loop.isFetching, hp, hfetch, hend]

/-- Of the fetches of collector `c` those that have not ended are in flight, but for `n` of them. -/
def Ledger (s : Service) (c n : ℕ) : Prop := ∀ x, s.collectors[c]? = some x →
  markCount .fetch c s.history =
    markCount .done c s.history + markCount .abandoned c s.history + x.inFlight + n

section Ledger

variable {s : Service} {c n : ℕ}

/-- A change of some collector that leaves its fetches in flight alone. -/
theorem Ledger.modify {s' : Service} {d : ℕ} {f : Collector → Collector} (h : s.Ledger c n)
    (hf : ∀ x, s.collectors[d]? = some x → (f x).inFlight = x.inFlight)
    (hcollectors : s'.collectors = s.collectors.modify d f) (hhistory : s'.history = s.history) :
    s'.Ledger c n := by
  intro y hy
  rw [hcollectors] at hy
  obtain ⟨x, hx, rfl⟩ := getElem?_modify_some hy
  rw [hhistory]
  split
  · rename_i hc
    rw [hf x (hc ▸ hx)]
    exact h x hx
  · exact h x hx

theorem wake_ledger {w : Wake} (hw : s.next? = some w) (h : s.Ledger c n) :
    (s.wake w).Ledger c n := by
  obtain ⟨x, l, hs, phase, began, hwoken⟩ := exists_woken hw
  intro y hy
  rw [hwoken.collectors] at hy
  obtain ⟨z, hz, rfl⟩ := getElem?_modify_some hy
  have hbefore := h z hz
  rw [hwoken.history, markCount_notes, markCount_notes, markCount_notes]
  by_cases hc : c = w.collector
  · subst hc
    obtain rfl : x = z := Option.some.inj (hwoken.collector.symm.trans hz)
    have hbalance := fun b => hwoken.turn.balance b
    simp only [if_true]
    cases began with
    | false =>
        have hset := Collector.inFlight_setPhase hwoken.loop phase
        have := hbalance l.cancelled
        simp only [cond_false]
        omega
    | true =>
        -- the fetch that begins may tell the loops that the token is cancelled
        have hset := Collector.inFlight_setPhase (x := x.beginFetch.1) (k := w.loop)
          (l := l.told x.beginFetch.2.cancels)
          (by rw [Collector.beginFetch_loops, List.getElem?_map, hwoken.loop]; rfl) phase
        have hsame := Collector.inFlight_told x.beginFetch_loops
        have := hbalance (l.told x.beginFetch.2.cancels).cancelled
        have htold : (l.told x.beginFetch.2.cancels).isFetching = l.isFetching := rfl
        rw [htold] at hset
        simp only [cond_true]
        omega
  · rw [if_neg (Ne.symm hc), if_neg (Ne.symm hc), if_neg (Ne.symm hc), if_neg hc]
    omega

theorem settle_ledger (h : s.Ledger c n) (deadline : ℕ) : (s.settle deadline).Ledger c n :=
  settle_induction (P := fun s => s.Ledger c n) (fun _ _ h hw _ => wake_ledger hw h) h

theorem forget_ledger (h : s.Ledger c n) (d : ℕ) : (s.forget d).Ledger c n :=
  h.modify (d := d) (f := fun x => { x with joinable := none }) (fun _ _ => rfl) rfl rfl

theorem join_ledger (h : s.Ledger c n) (d : ℕ) : (s.join d).1.Ledger c n := by
  unfold join
  split
  · exact h
  · split
    · exact forget_ledger h d
    · dsimp only
      split
      · exact forget_ledger (settle_ledger h _) d
      · exact settle_ledger h (s.time + 1)

/-- Notes that begin fetches, or end them. -/
theorem Ledger.noteAll {n' d : ℕ} {loop : Option ℕ} {hs : List Happening} (h : s.Ledger c n)
    (hown : d = c → n + Mark.fetch.count hs =
      Mark.done.count hs + Mark.abandoned.count hs + n')
    (hother : d ≠ c → n' = n) : (s.noteAll d loop hs).Ledger c n' := by
  intro x hx
  rw [noteAll_collectors] at hx
  have hbefore := h x hx
  rw [noteAll_history, markCount_notes, markCount_notes, markCount_notes]
  by_cases hd : d = c
  · have := hown hd
    simp only [if_pos hd]
    omega
  · have := hother hd
    simp only [if_neg hd]
    omega

/-- A census in the foreground has one fetch under way, and ends it. -/
theorem census_ledger {d : ℕ} {x : Collector} (hx : s.collectors[d]? = some x)
    (h : s.Ledger c n) (driver : Census.Driver) : (s.census d driver).1.Ledger c n := by
  have hdrawn : (s.draw d x).Ledger c n := by
    refine h.modify (fun y hy => ?_) (draw_collectors ..) (draw_history ..)
    obtain rfl : x = y := Option.some.inj (hx.symm.trans hy)
    exact Collector.inFlight_told x.beginFetch_loops
  have hbegan : (s.beginCensus d x).Ledger c (if d = c then n + 1 else n) := by
    show ((s.draw d x).noteAll d none [.fetchBegan x.beginFetch.2]).Ledger c _
    exact hdrawn.noteAll (fun hd => by simp [hd, Happening.mark?]) (fun hd => if_neg hd)
  have hawaited : (s.awaited d x).Ledger c (if d = c then n + 1 else n) := by
    unfold awaited
    dsimp only
    split
    · exact hbegan
    · exact settle_ledger hbegan _
  rw [census_eq hx]
  obtain ⟨hfetch, hend⟩ := (x.beginFetch.2.ending x.timeout).count_happenings driver
  refine hawaited.noteAll (fun hd => ?_) (fun hd => (if_neg hd).symm)
  rw [if_pos hd, hfetch, hend]
  omega

theorem perform_ledger (h : s.Ledger c n) (command : Command) :
    (s.perform command).1.Ledger c n := by
  have heffect := s.perform_effect command
  generalize s.perform command = result at heffect ⊢
  cases heffect with
  | none _ => exact h
  | start fresh _ =>
      exact h.modify (fun x _ => x.inFlight_start fresh) (rouse_collectors ..) (rouse_history ..)
  | cancel d =>
      exact h.modify (fun x _ => Collector.inFlight_told x.cancel_loops) (rouse_collectors ..)
        (rouse_history ..)
  | advance millis => exact settle_ledger h (s.time + millis)
  | join d => exact join_ledger h d
  | census hcensus hx => exact census_ledger hx h _

end Ledger

/-- **What began has ended or is in flight**, between commands. -/
theorem after_ledger (foreign : Gauge.Registry) (sources : List Source) (commands : List Command)
    (c : ℕ) : ((create foreign sources).after commands).Ledger c 0 := by
  induction commands using List.reverseRecOn with
  | nil =>
      intro x hx
      have hnone : x.loops = [] := create_fresh foreign sources x (List.mem_of_getElem? hx)
      rw [Collector.inFlight, hnone]
      rfl
  | append_singleton commands command ih =>
      rw [after_snoc]
      exact perform_ledger ih command

end AccountCensus.Service
