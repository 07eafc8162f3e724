import AccountCensus.Proofs.Life

/-!
# The gauges show the latest answer

Loops and censuses in the foreground write the same three gauges. `answers` reads off the fetch
marks of a history alone which fetches answered with accounts, the latest answer first, without a
look at the gauges, at censuses or at who drove them. `gauges_show_latest_answer` says that the
gauges show the tally of the first of them.

The end of a fetch is noted together with the end of its census, but the two can come long after
the fetch was begun, and other fetches end in between. What carries the argument is that a loop
with a fetch in flight knows how the fetch will end (`Life.inFlight`), and that the foreground of
a collector has one fetch at a time (`Act.finish`).
-/

namespace AccountCensus.Service

open Relation

/-! ## Answers -/

def Happening.fetch? : Happening → Option Fetch
  | .fetchBegan f => some f
  | _ => none

/-- The fetch that began last in a trace. -/
def lastFetch? (tr : List (ℕ × Happening)) : Option Fetch := tr.findSome? (·.2.fetch?)

/-- The accounts that a fetch answers with, if its answer is one with accounts. -/
def Fetch.accounts? (f : Fetch) : Option (List Account) :=
  match f.answer with
  | some (.ok accounts) => some accounts
  | _ => none

/-- The accounts of an answered fetch. The fetch is the one that began last for the same loop, or
for the foreground of the same collector. -/
def Record.accounts? (r : Record) (before : List Record) : Option (List Account) :=
  match r.happening with
  | .fetchEnded true => (lastFetch? (trace r.collector r.loop before)).bind Fetch.accounts?
  | _ => none

/-- The accounts of all fetches that answered with accounts, latest answer first. -/
def answers : List Record → List (List Account)
  | [] => []
  | r :: rs => (r.accounts? rs).toList ++ answers rs

/-- The tally of the latest answer, and zeros before there is one. -/
def latest (records : List Record) : Tally := ((answers records).head?.map tally).getD {}

/-- Nothing is answered, and no census ends well. -/
def Happening.isSilent : Happening → Bool
  | .fetchEnded true => false
  | .censusEnded _ (.ok _) => false
  | _ => true

/-- The gauges follow censuses that end with accounts and nothing else. -/
theorem publish_eq_self {h : Happening}
    (hh : ∀ driver accounts, h ≠ .censusEnded driver (.ok accounts)) (m : Gauge.Metrics) :
    h.publish m = m := by
  cases h with
  | censusEnded driver fetched =>
      cases fetched with
      | ok accounts => exact absurd rfl (hh driver accounts)
      | error cause => rfl
  | _ => rfl

theorem publish_silent {h : Happening} (hh : h.isSilent = true) (m : Gauge.Metrics) :
    h.publish m = m :=
  publish_eq_self (fun driver accounts heq => by rw [heq] at hh; cases hh) m

theorem foldr_publish_eq_self {rs : List Record}
    (hrs : ∀ r ∈ rs, ∀ driver accounts, r.happening ≠ .censusEnded driver (.ok accounts))
    (m : Gauge.Metrics) : rs.foldr (fun r m => r.happening.publish m) m = m := by
  induction rs with
  | nil => rfl
  | cons r rs ih =>
      rw [List.foldr_cons, ih fun r' hr' => hrs r' (List.mem_cons_of_mem _ hr')]
      exact publish_eq_self (hrs r List.mem_cons_self) m

theorem foldl_publish_silent {hs : List Happening} (hhs : ∀ h ∈ hs, h.isSilent = true)
    (m : Gauge.Metrics) : hs.foldl Happening.publish m = m := by
  induction hs with
  | nil => rfl
  | cons h hs ih =>
      rw [List.foldl_cons, publish_silent (hhs h List.mem_cons_self)]
      exact ih fun h' hh' => hhs h' (List.mem_cons_of_mem _ hh')

theorem answers_silent {new : List Record} (hnew : ∀ r ∈ new, r.happening.isSilent = true)
    (rs : List Record) : answers (new ++ rs) = answers rs := by
  induction new with
  | nil => rfl
  | cons r new ih =>
      have hnone : r.accounts? (new ++ rs) = none := by
        have hr := hnew r List.mem_cons_self
        unfold Record.accounts?
        split
        · rename_i heq
          rw [heq] at hr
          cases hr
        · rfl
      rw [List.cons_append, answers, hnone]
      exact ih fun r' hr' => hnew r' (List.mem_cons_of_mem _ hr')

/-- A fetch that ends by itself answers with accounts in time, or gives none at all. -/
theorem Fetch.ending_cases (f : Fetch) (timeout : Duration) :
    (∃ accounts, f.accounts? = some accounts ∧ f.ending timeout = ⟨f.delay, true, .ok accounts⟩) ∨
    ∃ cause, (f.ending timeout).fetched = .error cause ∧
      ((f.ending timeout).answered = true → f.accounts? = none) := by
  unfold accounts? ending
  cases f.answer with
  | none => exact .inr ⟨_, rfl, fun h => by cases h⟩
  | some fetched =>
      by_cases hd : f.delay ≤ timeout.ceilMillis
      · simp only [if_pos hd]
        cases fetched with
        | ok accounts => exact .inl ⟨accounts, rfl, rfl⟩
        | error cause => exact .inr ⟨cause, rfl, fun _ => rfl⟩
      · simp only [if_neg hd]
        exact .inr ⟨_, rfl, fun h => by cases h⟩

theorem answers_ending {rs : List Record} {c : ℕ} {loop : Option ℕ} {f : Fetch}
    (hlast : lastFetch? (trace c loop rs) = some f) (t : ℕ) (driver : Census.Driver) (e : Ending) :
    answers (((e.happenings driver).map (⟨t, c, loop, ·⟩)).reverse ++ rs) =
      (bif e.answered then f.accounts? else none).toList ++ answers rs := by
  obtain ⟨after, answered, fetched⟩ := e
  cases answered <;> simp [Ending.happenings, answers, Record.accounts?, hlast]

theorem Fetch.ending_answered {f : Fetch} {timeout : Duration}
    (h : (f.ending timeout).answered = true) :
    f.answer ≠ none ∧ (f.ending timeout).after = f.delay := by
  unfold ending at h ⊢
  cases ha : f.answer with
  | none =>
      rw [ha] at h
      cases h
  | some fetched =>
      rw [ha] at h
      refine ⟨by simp, ?_⟩
      by_cases hd : f.delay ≤ timeout.ceilMillis
      · simp only [if_pos hd]
      · simp only [if_neg hd] at h
        cases h

/-- Every answer comes from the fetch that its loop, or the foreground of its collector, noted
last, and it comes at the time at which that fetch gives it. -/
def Answered (records : List Record) : Prop :=
  ∀ newer r older, records = newer ++ r :: older → r.happening = .fetchEnded true →
    ∃ t f old, trace r.collector r.loop older = (t, .fetchBegan f) :: old ∧ f.answer ≠ none ∧
      r.time = t + f.delay

theorem Answered.cons {r : Record} {rs : List Record} (h : Answered rs)
    (hr : r.happening = .fetchEnded true → ∃ t f old,
      trace r.collector r.loop rs = (t, .fetchBegan f) :: old ∧ f.answer ≠ none ∧
        r.time = t + f.delay) : Answered (r :: rs) := by
  intro newer r' older heq hr'
  rcases List.cons_eq_append_iff.mp heq with ⟨rfl, hcons⟩ | ⟨newer', rfl, hrs⟩
  · obtain ⟨rfl, rfl⟩ := List.cons_eq_cons.mp hcons
    exact hr hr'
  · exact h newer' r' older hrs hr'

theorem Answered.silent {new rs : List Record} (h : Answered rs)
    (hnew : ∀ r ∈ new, r.happening.isSilent = true) : Answered (new ++ rs) := by
  induction new with
  | nil => exact h
  | cons r new ih =>
      refine (ih fun r' hr' => hnew r' (List.mem_cons_of_mem _ hr')).cons fun hr => ?_
      have hsilent := hnew r List.mem_cons_self
      rw [hr] at hsilent
      cases hsilent

/-! ## The gauges follow the answers -/

/-- The answers of a history are those of its fetches, and the gauges show the latest one. -/
structure Follows (foreign : Gauge.Registry) (m : Gauge.Metrics) (records : List Record) :
    Prop where
  registry : m.registry = foreign.withLogin (latest records)
  answered : Answered records

section Follows

variable {foreign : Gauge.Registry} {m : Gauge.Metrics} {rs : List Record}

theorem Follows.silent {t c : ℕ} {loop : Option ℕ} {hs : List Happening}
    (h : Follows foreign m rs) (hhs : ∀ h ∈ hs, h.isSilent = true) :
    Follows foreign (hs.foldl Happening.publish m)
      ((hs.map (⟨t, c, loop, ·⟩)).reverse ++ rs) := by
  have hnew : ∀ r ∈ (hs.map fun h => (⟨t, c, loop, h⟩ : Record)).reverse,
      r.happening.isSilent = true := by
    intro r hr
    obtain ⟨h, hmem, rfl⟩ := List.mem_map.mp (List.mem_reverse.mp hr)
    exact hhs h hmem
  constructor
  · rw [foldl_publish_silent hhs, latest, answers_silent hnew]
    exact h.registry
  · exact h.answered.silent hnew

/-- The beginning of a fetch shows nothing. -/
theorem Follows.began (h : Follows foreign m rs) (t c : ℕ) (loop : Option ℕ) (f : Fetch) :
    Follows foreign m (⟨t, c, loop, .fetchBegan f⟩ :: rs) := by
  have hsilent : ∀ h ∈ [Happening.fetchBegan f], h.isSilent = true := by
    simp [Happening.isSilent]
  exact h.silent hsilent

variable (hfree : foreign.Free Gauge.loginGauges)
include hfree

/-- The end of a fetch that ends by itself: if it answers with accounts they are the latest
answer from now on and the gauges get their tally, and if not neither changes. -/
theorem Follows.ending {t b c : ℕ} {loop : Option ℕ} {f : Fetch} {timeout : Duration}
    {driver : Census.Driver} {old : List (ℕ × Happening)} (h : Follows foreign m rs)
    (htrace : trace c loop rs = (b, .fetchBegan f) :: old)
    (ht : t = b + (f.ending timeout).after) :
    Follows foreign (((f.ending timeout).happenings driver).foldl Happening.publish m)
      ((((f.ending timeout).happenings driver).map (⟨t, c, loop, ·⟩)).reverse ++ rs) := by
  have hlast : lastFetch? (trace c loop rs) = some f := by
    rw [htrace]
    rfl
  constructor
  · rw [latest, answers_ending hlast]
    rcases f.ending_cases timeout with ⟨accounts, haccounts, hending⟩ | ⟨cause, hfetched, hnone⟩
    · rw [hending, haccounts]
      exact Gauge.Metrics.publish_withLogin hfree h.registry _
    · have hpublish : ((f.ending timeout).happenings driver).foldl Happening.publish m = m := by
        simp [Ending.happenings, hfetched, Happening.publish, Census.publish]
      have hempty : (bif (f.ending timeout).answered then f.accounts? else none) = none := by
        cases ha : (f.ending timeout).answered with
        | false => rfl
        | true => exact hnone ha
      rw [hpublish, hempty]
      exact h.registry
  · refine (h.answered.cons fun hr => ?_).cons fun hr => by cases hr
    obtain ⟨hanswer, hafter⟩ := Fetch.ending_answered (Happening.fetchEnded.inj hr)
    exact ⟨b, f, old, htrace, hanswer, by rw [ht, hafter]⟩

theorem Act.follows {s s' : Service} (hact : Act s s')
    (h : Follows foreign s.metrics s.history) : Follows foreign s'.metrics s'.history := by
  cases hact with
  | start fresh hx hready => simpa using h
  | cancel hx => simpa using h
  | forget c => exact h
  | @begin c x hx =>
      simpa using h.began s.time c none x.beginFetch.2
  | finish driver hx htrace htime =>
      rw [noteAll_metrics, noteAll_history]
      exact h.ending hfree htrace htime
  | wait ht hquiet => exact h

theorem Step.follows {s s' : Service} (hstep : Step s s')
    (hlife : ∀ {c k interval timeout v}, s.Sees c k interval timeout v → Life interval timeout v)
    (h : Follows foreign s.metrics s.history) : Follows foreign s'.metrics s'.history := by
  cases hstep with
  | act hact => exact hact.follows hfree h
  | @wake w hw =>
      obtain ⟨x, l, hs, phase, began, hwoken⟩ := exists_woken hw
      rw [hwoken.metrics, hwoken.history]
      cases hwoken.turn with
      | panic _ _ => exact h.silent (by simp [Happening.isSilent])
      | start _ _ => exact h.silent (by simp [Happening.isSilent])
      | stop _ _ => exact h.silent (by simp [Happening.isSilent])
      | fetch _ _ _ => exact h.silent (by simp [Happening.isSilent])
      | abandon _ _ => exact h.silent (by simp [Happening.isSilent])
      | serve _ _ ha =>
          -- the fetch that ends is the one that began in the same turn
          have hbegan := h.began w.time w.collector (some w.loop) x.beginFetch.2
          have htrace : trace w.collector (some w.loop)
              (⟨w.time, w.collector, some w.loop, .fetchBegan x.beginFetch.2⟩ :: s.history) =
                (w.time, .fetchBegan x.beginFetch.2) ::
                  trace w.collector (some w.loop) s.history := by
            simp [trace]
          rw [List.foldl_cons, List.map_cons, List.reverse_cons, List.append_assoc]
          exact hbegan.ending hfree htrace (by rw [ha, Nat.add_zero])
      | finish hp hc =>
          -- the fetch is the one that the loop noted last, and it ends on time
          have hsees := sees_of_loop hwoken.collector hwoken.loop
          obtain ⟨⟨b, f, old, htrace, rfl, rfl, -⟩, hinTime⟩ := (hlife hsees).inFlight _ _ _ hp
          have hmax := Option.some.inj
            ((Loop.wakeTime?_fetching hp hc _).symm.trans hwoken.wakeTime)
          rw [max_eq_right (hinTime hc)] at hmax
          exact h.ending hfree htrace hmax.symm

end Follows

/-! ## The fetches follow the script -/

/-- The fetches of a collector, the latest first. -/
def fetches (c : ℕ) (records : List Record) : List Fetch :=
  records.filterMap fun r => if r.collector = c then r.happening.fetch? else none

theorem fetches_notes (c t d : ℕ) (loop : Option ℕ) (hs : List Happening) (rs : List Record) :
    fetches c ((hs.map (⟨t, d, loop, ·⟩)).reverse ++ rs) =
      (if d = c then (hs.filterMap Happening.fetch?).reverse else []) ++ fetches c rs := by
  unfold fetches
  rw [List.filterMap_append, List.filterMap_reverse, List.filterMap_map]
  congr 1
  by_cases hd : d = c
  · rw [if_pos hd]
    congr 1
    simp only [Function.comp_def, if_pos hd]
  · rw [if_neg hd, List.reverse_eq_nil_iff, List.filterMap_eq_nil_iff]
    intro h _
    exact if_neg hd

theorem Turn.fetches {interval timeout : Duration} {now : ℕ} {f : Fetch} {l : Loop}
    {hs : List Happening} {phase : Phase} {began : Bool}
    (h : Turn interval timeout now f l hs phase began) :
    hs.filterMap Happening.fetch? = bif began then [f] else [] := by
  cases h <;> rfl

/-- These fetches were taken from the script, one item after the other, and these items are
left. -/
def Drawn (script rest fetches : List Fetch) : Prop :=
  rest = script.drop fetches.length ∧
    fetches.reverse = (List.range fetches.length).map fun i => script[i]?.getD .beyond

theorem Drawn.next {script fs : List Fetch} {x : Collector} (h : Drawn script x.script fs) :
    Drawn script x.beginFetch.1.script (x.beginFetch.2 :: fs) := by
  obtain ⟨hrest, hfs⟩ := h
  rw [Collector.beginFetch_script, Collector.beginFetch_fetch]
  refine ⟨by rw [hrest, List.tail_drop, List.length_cons], ?_⟩
  rw [List.reverse_cons, hfs, List.length_cons, List.range_succ, List.map_append, hrest,
    List.headD_eq_head?_getD, List.head?_drop]
  rfl

/-- Every collector has drawn its fetches from the script of its source. -/
def FollowsScripts (sources : List Source) (s : Service) : Prop :=
  s.collectors.length = sources.length ∧
    ∀ (c : ℕ) x source, s.collectors[c]? = some x → sources[c]? = some source →
      Drawn source.script x.script (fetches c s.history)

/-- A change of one collector that draws at most the fetches that are noted. -/
theorem FollowsScripts.modify {sources : List Source} {s s' : Service} {d : ℕ}
    {f : Collector → Collector} (h : FollowsScripts sources s)
    (hcollectors : s'.collectors = s.collectors.modify d f)
    (hown : ∀ x script, s.collectors[d]? = some x →
      Drawn script x.script (fetches d s.history) →
      Drawn script (f x).script (fetches d s'.history))
    (hother : ∀ c, c ≠ d → fetches c s'.history = fetches c s.history) :
    FollowsScripts sources s' := by
  refine ⟨by rw [hcollectors, List.length_modify, h.1], ?_⟩
  intro c y source hy hsource
  rw [hcollectors] at hy
  obtain ⟨x, hx, rfl⟩ := getElem?_modify_some hy
  have hdrawn := h.2 c x source hx hsource
  by_cases hd : c = d
  · subst hd
    rw [if_pos rfl]
    exact hown x source.script hx hdrawn
  · rw [if_neg hd, hother c hd]
    exact hdrawn

theorem Step.followsScripts {sources : List Source} {s s' : Service} (hstep : Step s s')
    (h : FollowsScripts sources s) : FollowsScripts sources s' := by
  cases hstep with
  | act hact =>
      cases hact with
      | @start d x fresh hx hready =>
          exact h.modify (rouse_collectors ..) (fun y script _ hy => by simpa using hy)
            (fun c _ => by simp)
      | @cancel d x hx =>
          exact h.modify (rouse_collectors ..) (fun y script _ hy => by simpa using hy)
            (fun c _ => by simp)
      | forget d => exact h.modify (d := d) rfl (fun y script _ hy => hy) (fun c _ => rfl)
      | @begin d x hx =>
          refine h.modify (beginCensus_collectors ..) (fun y script hy hdrawn => ?_)
            (fun c hc => ?_)
          · obtain rfl : x = y := Option.some.inj (hx.symm.trans hy)
            have hcons : fetches d (s.beginCensus d x).history =
                x.beginFetch.2 :: fetches d s.history := by
              simp [fetches, Happening.fetch?]
            rw [hcons]
            exact hdrawn.next
          · rw [beginCensus_history]
            simp [fetches, Ne.symm hc]
      | @finish d t x f old driver hx htrace htime =>
          have hsame : ∀ c, fetches c (s.noteAll d none ((f.ending x.timeout).happenings
              driver)).history = fetches c s.history := by
            intro c
            rw [noteAll_history, fetches_notes]
            simp [Ending.happenings, Happening.fetch?]
          refine ⟨by simpa using h.1, fun c y source hy hsource => ?_⟩
          rw [hsame]
          exact h.2 c y source (by simpa using hy) hsource
      | wait ht hquiet => exact h
  | @wake w hw =>
      obtain ⟨x, l, hs, phase, began, hwoken⟩ := exists_woken hw
      refine h.modify hwoken.collectors (fun y script hy hdrawn => ?_) (fun c hc => ?_)
      · obtain rfl : x = y := Option.some.inj (hwoken.collector.symm.trans hy)
        rw [hwoken.history, fetches_notes, if_pos rfl, hwoken.turn.fetches]
        cases began with
        | false => simpa using hdrawn
        | true => exact hdrawn.next
      · rw [hwoken.history, fetches_notes, if_neg (Ne.symm hc), List.nil_append]

theorem create_followsScripts (foreign : Gauge.Registry) (sources : List Source) :
    FollowsScripts sources (create foreign sources) := by
  refine ⟨by simp [create], fun c x source hx hsource => ?_⟩
  have hscript : x.script = source.script := by
    simp only [create, List.getElem?_map, hsource, Option.map_some, Option.some.injEq] at hx
    rw [← hx]
  rw [hscript]
  exact ⟨rfl, rfl⟩

/-! ## Runs -/

/-- **The latest answer wins.** Whatever the scripts are and whatever the commands were, the
registry is the foreign one and the gauges with the tally of the latest answer, of any collector
and by whomever the census was driven, or with zeros before the first answer. The history in which
the answers are looked up is in order of time, its fetches are those of the scripts, and each
answer comes when its fetch gives it. Censuses that fail, time out or are abandoned change nothing:
while no census ends with accounts the gauges stay as they are. -/
theorem gauges_show_latest_answer (foreign : Gauge.Registry) (sources : List Source)
    (hsources : sources ≠ [])
    (hcreated : ∀ o ∈ (createAll { registry := foreign } sources).2, o = .ok ())
    (commands : List Command) :
    let s := (create foreign sources).after commands
    let t := latest s.history
    s.metrics.registry = foreign.withLogin t ∧
    s.metrics.registry.readings =
      [some (Gauge.clamp t.duplicates), some (t.flag : ℤ), some (Gauge.clamp t.mixedCased)] ∧
    (foreign.broken = false →
      ∀ m ∈ (foreign.withLogin t).metrics, m.sampleLine ∈ s.metrics.registry.lines) ∧
    s.history.Pairwise (fun r r' => r'.time ≤ r.time) ∧ Answered s.history ∧
    (∀ (c : ℕ) source, sources[c]? = some source →
      (fetches c s.history).reverse =
        (List.range (fetches c s.history).length).map fun i => source.script[i]?.getD .beyond) ∧
    ∀ commands', ∃ new, (s.after commands').history = new ++ s.history ∧
      ((∀ r ∈ new, ∀ driver accounts, r.happening ≠ .censusEnded driver (.ok accounts)) →
        (s.after commands').metrics = s.metrics) := by
  intro s t
  obtain ⟨hfree, hregistry⟩ := create_registry hsources hcreated
  have h₀ := create_orderly foreign sources
  have hsteps : ReflTransGen Step (create foreign sources) s := after_steps h₀ commands
  have hfollows : ∀ {s'}, ReflTransGen Step (create foreign sources) s' →
      Follows foreign s'.metrics s'.history := by
    intro s' h
    induction h with
    | refl => exact ⟨hregistry, fun newer r older heq => by simp [create] at heq⟩
    | tail h hstep ih => exact hstep.follows hfree (life_of_steps h₀ (create_fresh _ _) h) ih
  obtain ⟨hshown, hanswered⟩ := hfollows hsteps
  refine ⟨hshown, ?_, ?_, ?_, hanswered, ?_, ?_⟩
  · rw [hshown]
    exact Gauge.Registry.readings_withLogin hfree t
  · intro hbroken m hm
    rw [hshown]
    exact Gauge.Registry.sampleLine_mem_lines (r := foreign.withLogin t) hbroken hm
  · exact (steps_induction (fun h hs => h.chronological hs) hsteps
      (create_chronological foreign sources)).1
  · intro c source hsource
    obtain ⟨hlength, hdrawn⟩ := steps_induction (fun h hs => h.followsScripts hs) hsteps
      (create_followsScripts foreign sources)
    have hc : c < s.collectors.length := by
      rw [hlength]
      exact (List.getElem?_eq_some_iff.mp hsource).1
    exact (hdrawn c _ source (List.getElem?_eq_getElem hc) hsource).2
  · intro commands'
    obtain ⟨new, hnew, hmetrics⟩ :=
      history_of_steps (after_steps (after_orderly h₀ commands) commands')
    refine ⟨new, hnew, fun hnone => ?_⟩
    rw [hmetrics]
    exact foldr_publish_eq_self hnone _

/-- A census in the foreground takes 100 ms, and in the meantime the loop of another collector
answers; the foreground answers later and wins. The second fetch of the loop stalls. -/
theorem later_answer_wins :
    let sources : List Source :=
      [⟨.ofMillis 1000, .ofMillis 500,
          [⟨some (.ok [⟨"ann", "ann@x"⟩, ⟨"Ann", "b@x"⟩]), 0, false⟩, ⟨none, 0, false⟩]⟩,
        ⟨.ofMillis 1000, .ofMillis 500, [⟨some (.ok [⟨"bob", "bob@x"⟩]), 100, false⟩]⟩]
    let commands : List Command := [.start 0 false, .get 1, .advance 1300]
    sources ≠ [] ∧ (∀ o ∈ (createAll { registry := {} } sources).2, o = .ok ()) ∧
      ((create {} sources).after commands).metrics.registry =
        Gauge.Registry.withLogin {} ⟨0, 1⟩ := by
  intro sources commands
  have hcreated : ∀ o ∈ (createAll { registry := {} } sources).2, o = .ok () := by
    decide +kernel
  have hlatest : latest ((create {} sources).after commands).history = ⟨0, 1⟩ := by
    decide +kernel
  have hshown := (gauges_show_latest_answer {} sources (by simp [sources]) hcreated commands).1
  rw [hlatest] at hshown
  exact ⟨by simp [sources], hcreated, hshown⟩

end AccountCensus.Service
