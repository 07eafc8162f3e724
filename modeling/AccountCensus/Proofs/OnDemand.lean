import AccountCensus.Proofs.Alone
import AccountCensus.Proofs.Foreground
import AccountCensus.Proofs.Routes

/-!
# Three ways to ask for a census

A direct call, a request for a report and a request to the web endpoint all let the same census
go on in the foreground (`perform_census`), and differ in the driver that the end of the census is
noted with, and in the words of the answer. The driver shows in the journal only (`Alike`).

The answers say the same because no answer can be had from two results: a report is read off its
numbers (`Report.ofTally_injective`), and so is its text (`Report.json_injective`), where the
digits of a number end at the first character that is none.
-/

namespace AccountCensus

/-! ## Reports -/

/-- The digits in front of a text that does not begin with one can be read back. -/
theorem digits_append_inj {n n' : ℕ} {x x' : Char} {xs xs' : List Char}
    (hx : x.isDigit = false) (hx' : x'.isDigit = false)
    (h : Nat.toDigits 10 n ++ x :: xs = Nat.toDigits 10 n' ++ x' :: xs') :
    n = n' ∧ x :: xs = x' :: xs' := by
  have hread : ∀ {m : ℕ} {y : Char} {ys : List Char}, y.isDigit = false →
      (Nat.toDigits 10 m ++ y :: ys).takeWhile Char.isDigit = Nat.toDigits 10 m := by
    intro m y ys hy
    rw [List.takeWhile_append_of_pos fun d hd =>
      Nat.isDigit_of_mem_toDigits (by decide) (by decide) hd,
      List.takeWhile_cons_of_neg (by simp [hy]), List.append_nil]
  have hdigits : Nat.toDigits 10 n = Nat.toDigits 10 n' := by
    rw [← hread hx, h, hread hx']
  have hn : n = n' := by
    rw [← Nat.ofDigitChars_toDigits (b := 10) (n := n) (by decide) (by decide), hdigits,
      Nat.ofDigitChars_toDigits (by decide) (by decide)]
  subst hn
  exact ⟨rfl, List.append_cancel_left h⟩

namespace Report

/-- What stands before a number in the text of a report. -/
def label (key : String) : List Char := "\"".toList ++ key.toList ++ "\":".toList

theorem entryText_toList (key : String) (value : ℕ) :
    (entryText (key, value)).toList = label key ++ Nat.toDigits 10 value := by
  simp only [entryText, label, String.toList_append, Nat.toString_eq_ofList_toDigits,
    String.toList_ofList]

/-- The characters of a report as text. -/
theorem json_ofTally_toList (t : Tally) : (ofTally t).json.toList =
    "\x7b".toList ++ label "stats.users.duplicate_user_entries" ++
      (Nat.toDigits 10 t.duplicates ++ ',' ::
        (label "stats.users.has_duplicate_user_entries" ++ (Nat.toDigits 10 t.flag ++ ',' ::
          (label "stats.users.mixed_cased_users" ++ (Nat.toDigits 10 t.mixedCased ++
            ['\x7d']))))) := by
  have hjson : (ofTally t).json =
      "\x7b" ++ (entryText ("stats.users.duplicate_user_entries", t.duplicates) ++ "," ++
        entryText ("stats.users.has_duplicate_user_entries", t.flag) ++ "," ++
        entryText ("stats.users.mixed_cased_users", t.mixedCased)) ++ "\x7d" := rfl
  have hcomma : ",".toList = [','] := rfl
  have hbrace : "\x7d".toList = ['\x7d'] := rfl
  rw [hjson]
  simp only [String.toList_append, entryText_toList, hcomma, hbrace, List.append_assoc,
    List.nil_append, List.cons_append]

/-- **A report can be read back from its text.** -/
theorem json_injective {t t' : Tally} (h : (ofTally t).json = (ofTally t').json) : t = t' := by
  have hcomma : ','.isDigit = false := by decide
  have hbrace : '\x7d'.isDigit = false := by decide
  have hchars := congrArg String.toList h
  rw [json_ofTally_toList, json_ofTally_toList] at hchars
  obtain ⟨hduplicates, hrest⟩ :=
    digits_append_inj hcomma hcomma (List.append_cancel_left hchars)
  obtain ⟨-, hrest⟩ :=
    digits_append_inj hcomma hcomma (List.append_cancel_left (List.cons_eq_cons.mp hrest).2)
  obtain ⟨hmixed, -⟩ :=
    digits_append_inj hbrace hbrace (List.append_cancel_left (List.cons_eq_cons.mp hrest).2)
  cases t
  cases t'
  exact (Tally.mk.injEq ..).mpr ⟨hduplicates, hmixed⟩

/-- A report tells its tally. -/
theorem ofTally_injective {t t' : Tally} (h : ofTally t = ofTally t') : t = t' := by
  rw [ofTally, ofTally] at h
  simp only [List.cons.injEq, Prod.mk.injEq, true_and, and_true] at h
  cases t
  cases t'
  obtain ⟨rfl, -, rfl⟩ := h
  rfl

end Report

namespace Service

open Relation

/-! ## One census, several drivers -/

/-- Two services that differ at most in what their journals tell. -/
structure Alike (s s' : Service) : Prop where
  time : s.time = s'.time
  collectors : s.collectors = s'.collectors
  turns : s.turns = s'.turns
  metrics : s.metrics = s'.metrics
  marks : ∀ c, marks c s.history = marks c s'.history

theorem Alike.refl (s : Service) : Alike s s := ⟨rfl, rfl, rfl, rfl, fun _ => rfl⟩

/-- **Who drives a census shows in the journal only.** -/
theorem census_alike (s : Service) (c : ℕ) (driver driver' : Census.Driver) :
    (s.census c driver).2 = (s.census c driver').2 ∧
      Alike (s.census c driver).1 (s.census c driver').1 := by
  cases hx : s.collectors[c]? with
  | none =>
      have hsame : ∀ d, s.census c d = (s, .ok []) := fun d => by simp only [census, hx]
      rw [hsame, hsame]
      exact ⟨rfl, .refl s⟩
  | some x =>
      rw [census_eq hx, census_eq hx]
      refine ⟨rfl, ?_⟩
      constructor
      · rw [noteAll_time, noteAll_time]
      · rw [noteAll_collectors, noteAll_collectors]
      · rw [noteAll_turns, noteAll_turns]
      · rw [noteAll_metrics, noteAll_metrics]
        rfl
      · intro d
        rw [noteAll_history, noteAll_history, marks_notes, marks_notes]
        rfl

/-! ## The gauges after a census -/

/-- The way to the end of the fetch of a census in the foreground. -/
theorem awaited_strides {s : Service} (hs : s.Orderly) {c : ℕ} {x : Collector}
    (hx : s.collectors[c]? = some x) : ReflTransGen Stride s (s.awaited c x) := by
  have hbegin : Act s (s.beginCensus c x) := .begin hx
  unfold awaited
  dsimp only
  split
  · exact .single (.act hbegin)
  · exact (ReflTransGen.single (.act hbegin)).trans
      (passUntil_strides (hbegin.orderly hs) (Nat.le_add_right ..))

/-- **A census that succeeds shows its tally**, at the moment at which it ends. -/
theorem census_registry {foreign : Gauge.Registry} {s : Service} {c : ℕ} {x : Collector}
    {driver : Census.Driver} {accounts : List Account} (hs : s.Orderly)
    (hfree : foreign.Free Gauge.loginGauges) (h : Exports foreign s.metrics)
    (hx : s.collectors[c]? = some x) (hok : (s.census c driver).2 = .ok accounts) :
    (s.census c driver).1.metrics.registry = foreign.withLogin (tally accounts) := by
  rw [census_eq hx] at hok ⊢
  have hok' : (x.beginFetch.2.ending x.timeout).fetched = .ok accounts := hok
  obtain ⟨t, ht⟩ := h.steps hfree (steps_of_strides (awaited_strides hs hx))
  rw [noteAll_metrics, Ending.happenings, hok']
  exact Gauge.Metrics.publish_withLogin hfree ht _

/-- There is a collector only if its gauges could be registered, and so its census is shown. -/
theorem census_registry_after (foreign : Gauge.Registry) (sources : List Source)
    (commands : List Command) {c : ℕ} {driver : Census.Driver} {accounts : List Account}
    (hhas : ((create foreign sources).after commands).has c = true)
    (hok : (((create foreign sources).after commands).census c driver).2 = .ok accounts) :
    foreign.Free Gauge.loginGauges ∧
      (((create foreign sources).after commands).census c driver).1.metrics.registry =
        foreign.withLogin (tally accounts) := by
  have h₀ := create_orderly foreign sources
  have hsteps := after_steps h₀ commands
  have hready : (create foreign sources).metrics.ready = true :=
    (ready_of_steps hsteps).symm.trans (has_ready hhas)
  obtain ⟨hfree, hexports⟩ := create_exports hready
  obtain ⟨x, hx⟩ := exists_of_has hhas
  exact ⟨hfree, census_registry (after_orderly h₀ commands) hfree (hexports.steps hfree hsteps) hx
    hok⟩

/-- **A tally in the gauges is shown**, and goes on to be shown while no census ends with
accounts. -/
theorem shown_of_registry {foreign : Gauge.Registry} {s : Service} {t : Tally} (hs : s.Orderly)
    (hfree : foreign.Free Gauge.loginGauges)
    (hregistry : s.metrics.registry = foreign.withLogin t) :
    s.metrics.registry.readings =
      [some (Gauge.clamp t.duplicates), some (t.flag : ℤ), some (Gauge.clamp t.mixedCased)] ∧
    (foreign.broken = false →
      ∀ m ∈ (foreign.withLogin t).metrics, m.sampleLine ∈ s.metrics.registry.lines) ∧
    (foreign.broken = false → ∀ m ∈ (Gauge.Registry.withLogin {} t).metrics,
      m.sampleLine ∈ s.metrics.registry.samples) ∧
    ∀ commands, ∃ new, (s.after commands).history = new ++ s.history ∧
      ((∀ r ∈ new, ∀ driver accounts, r.happening ≠ .censusEnded driver (.ok accounts)) →
        (s.after commands).metrics = s.metrics) := by
  refine ⟨?_, ?_, ?_, ?_⟩
  · rw [hregistry]
    exact Gauge.Registry.readings_withLogin hfree t
  · intro hbroken m hm
    rw [hregistry]
    exact Gauge.Registry.sampleLine_mem_lines (r := foreign.withLogin t) hbroken hm
  · intro hbroken m hm
    rw [hregistry]
    exact Gauge.Registry.login_mem_samples hbroken t hm
  · intro commands
    obtain ⟨new, hnew, hmetrics⟩ := history_of_steps (after_steps hs commands)
    refine ⟨new, hnew, fun hnone => ?_⟩
    rw [hmetrics]
    exact foldr_publish_eq_self hnone _

/-! ## The answers -/

theorem route_report {r : Http.Request} (hpath : Http.barePath r.path = "/api/stats/users")
    (hmethod : r.method = "GET") : r.route = .serve .report :=
  Http.Request.route_of_get hpath hmethod

/-- The three keys of a report with their numbers. -/
theorem ofTally_eq (t : Tally) : Report.ofTally t =
    [("stats.users.duplicate_user_entries", t.duplicates),
      ("stats.users.has_duplicate_user_entries", if 0 < t.duplicates then 1 else 0),
      ("stats.users.mixed_cased_users", t.mixedCased)] := by
  simp [Report.ofTally, Tally.flag, Tally.hasDuplicates]

/-- The response to a request with the method GET. -/
theorem tell_request {c : ℕ} {r : Http.Request} (hmethod : r.method = "GET") (fetched : Fetched) :
    (Command.request c r).tell fetched =
      .response (Http.reportResponse (Census.result fetched)) := by
  simp [Command.tell, Http.Response.forMethod, hmethod]

section Answers

variable (c : ℕ) (fetched : Fetched)

/-- The answers of the three paths tell the same tally. -/
theorem tell_ok_iff (t : Tally) :
    ((Command.get c).tell fetched = .tally (.ok t) ↔
      (Command.collect c).tell fetched = .report (.ok (Report.ofTally t))) ∧
    ((Command.get c).tell fetched = .tally (.ok t) ↔
      Answer.response (Http.reportResponse (Census.result fetched)) =
        .response { status := 200, contentType := some "application/json",
                    body := (Report.ofTally t).json }) := by
  cases fetched with
  | ok accounts =>
      simp only [Command.tell, Census.result, Except.map, Http.reportResponse]
      refine ⟨⟨fun h => ?_, fun h => ?_⟩, fun h => ?_, fun h => ?_⟩
      · obtain rfl := Except.ok.inj (Answer.tally.inj h)
        rfl
      · rw [Report.ofTally_injective (Except.ok.inj (Answer.report.inj h))]
      · obtain rfl := Except.ok.inj (Answer.tally.inj h)
        rfl
      · have hbody := congrArg Http.Response.body (Answer.response.inj h)
        rw [Report.json_injective hbody]
  | error cause =>
      simp [Command.tell, Census.result, Except.map, Http.reportResponse]

/-- The answers of the three paths tell the same failure. -/
theorem tell_error_iff :
    (∀ e, (Command.get c).tell fetched = .tally (.error e) ↔
      (Command.collect c).tell fetched = .report (.error e)) ∧
    ∀ text, (∃ e, (Command.get c).tell fetched = .tally (.error e) ∧ e.message = text) ↔
      Answer.response (Http.reportResponse (Census.result fetched)) =
        .response { status := 500, contentType := some Http.plainText, body := text } := by
  cases fetched with
  | ok accounts =>
      simp [Command.tell, Census.result, Except.map, Http.reportResponse]
  | error cause =>
      simp [Command.tell, Census.result, Except.map, Http.reportResponse]

/-- A call that answers with a tally has found its accounts. -/
theorem accounts_of_tell {t : Tally} (h : (Command.get c).tell fetched = .tally (.ok t)) :
    ∃ accounts, fetched = .ok accounts ∧ tally accounts = t := by
  cases fetched with
  | ok accounts => exact ⟨accounts, rfl, Except.ok.inj (Answer.tally.inj h)⟩
  | error cause => cases Answer.tally.inj h

end Answers

/-- **The three ways to ask for a census agree.** After any commands to a service, of any
collector:

- a request for a report and a GET request to the endpoint lead to the same state, and a direct
  call to one that differs at most in the journal: the time, the collectors with their scripts and
  loops, the gauges and the fetch marks are the same;
- without the collector none of them has an answer. With it the call answers with a tally exactly
  if the report holds its numbers, and exactly if the response is one with that report; it answers
  with a failure exactly if the report is that failure, and exactly if the response is a server
  error with its text;
- after a success the gauges show the tally, whichever way it was asked for, in the registry, in the
  lines of its text and in the samples that observers are shown, and they go on to show it while no
  other census ends with accounts. -/
theorem on_demand_paths_agree (foreign : Gauge.Registry) (sources : List Source)
    (commands : List Command) (c : ℕ) (r : Http.Request)
    (hpath : Http.barePath r.path = "/api/stats/users") (hmethod : r.method = "GET") :
    let s := (create foreign sources).after commands
    let called := s.perform (.get c)
    let collected := s.perform (.collect c)
    let served := s.perform (.request c r)
    served.1 = collected.1 ∧ Alike called.1 collected.1 ∧
    (s.has c = false →
      called.2 = .noCollector ∧ collected.2 = .noCollector ∧ served.2 = .noCollector) ∧
    (s.has c = true → ∃ result, called.2 = .tally result) ∧
    (∀ t : Tally,
      (called.2 = .tally (.ok t) ↔ collected.2 = .report (.ok
        [("stats.users.duplicate_user_entries", t.duplicates),
          ("stats.users.has_duplicate_user_entries", if 0 < t.duplicates then 1 else 0),
          ("stats.users.mixed_cased_users", t.mixedCased)])) ∧
      (called.2 = .tally (.ok t) ↔ served.2 = .response
        { status := 200, contentType := some "application/json",
          body := (Report.ofTally t).json })) ∧
    (∀ e, called.2 = .tally (.error e) ↔ collected.2 = .report (.error e)) ∧
    (∀ text, (∃ e, called.2 = .tally (.error e) ∧ e.message = text) ↔ served.2 = .response
      { status := 500, contentType := some Http.plainText, body := text }) ∧
    ∀ t : Tally, called.2 = .tally (.ok t) → ∀ s' ∈ [called.1, collected.1, served.1],
      s'.metrics.registry = foreign.withLogin t ∧
      s'.metrics.registry.readings =
        [some (Gauge.clamp t.duplicates), some (t.flag : ℤ), some (Gauge.clamp t.mixedCased)] ∧
      (foreign.broken = false →
        ∀ m ∈ (foreign.withLogin t).metrics, m.sampleLine ∈ s'.metrics.registry.lines) ∧
      (foreign.broken = false → ∀ m ∈ (Gauge.Registry.withLogin {} t).metrics,
        m.sampleLine ∈ s'.metrics.registry.samples) ∧
      ∀ commands', ∃ new, (s'.after commands').history = new ++ s'.history ∧
        ((∀ r ∈ new, ∀ driver accounts, r.happening ≠ .censusEnded driver (.ok accounts)) →
          (s'.after commands').metrics = s'.metrics) := by
  intro s called collected served
  have hs : s.Orderly := after_orderly (create_orderly foreign sources) commands
  have hrequest : (Command.request c r).census? = some (c, .report) := by
    simp only [Command.census?, route_report hpath hmethod]
  by_cases hhas : s.has c = true
  · have hcalled : called = ((s.census c .call).1, (Command.get c).tell (s.census c .call).2) :=
      perform_census rfl hhas
    have hcollected : collected =
        ((s.census c .report).1, (Command.collect c).tell (s.census c .report).2) :=
      perform_census rfl hhas
    have hserved : served = ((s.census c .report).1,
        (Command.request c r).tell (s.census c .report).2) :=
      perform_census hrequest hhas
    obtain ⟨hfetched, halike⟩ := census_alike s c .call .report
    rw [hfetched] at hcalled
    rw [tell_request hmethod] at hserved
    have hok := tell_ok_iff c (s.census c .report).2
    obtain ⟨herror, htext⟩ := tell_error_iff c (s.census c .report).2
    refine ⟨by rw [hserved, hcollected], by rw [hcalled, hcollected]; exact halike,
      fun h => absurd hhas (by simp [h]), fun _ => ⟨_, by rw [hcalled]; rfl⟩, fun t => ?_, ?_, ?_,
      fun t ht => ?_⟩
    · rw [← ofTally_eq t, hcalled, hcollected, hserved]
      exact hok t
    · rw [hcalled, hcollected]
      exact herror
    · rw [hcalled, hserved]
      exact htext
    · -- all three end with the same accounts in the same gauges
      rw [hcalled] at ht
      obtain ⟨accounts, haccounts, rfl⟩ := accounts_of_tell c _ ht
      obtain ⟨hfree, hshown⟩ := census_registry_after foreign sources commands hhas haccounts
      have horderly : ∀ command, (s.perform command).1.Orderly := fun command =>
        orderly_of_steps (steps_of_strides (perform_strides hs command)) hs
      intro s' hmem
      have hs' : s'.Orderly ∧ s'.metrics.registry = foreign.withLogin (tally accounts) := by
        simp only [List.mem_cons, List.not_mem_nil, or_false] at hmem
        rcases hmem with rfl | rfl | rfl
        · exact ⟨horderly _, by rw [hcalled, halike.metrics]; exact hshown⟩
        · exact ⟨horderly _, by rw [hcollected]; exact hshown⟩
        · exact ⟨horderly _, by rw [hserved]; exact hshown⟩
      exact ⟨hs'.2, shown_of_registry hs'.1 hfree hs'.2⟩
  · have hcalled : called = (s, .noCollector) := perform_of_not_has rfl hhas
    have hcollected : collected = (s, .noCollector) := perform_of_not_has rfl hhas
    have hserved : served = (s, .noCollector) := perform_of_not_has rfl hhas
    rw [hcalled, hcollected, hserved]
    refine ⟨rfl, .refl s, fun _ => ⟨rfl, rfl, rfl⟩, fun h => absurd h hhas, fun t => ?_,
      fun e => ?_, fun text => ?_, fun t ht => by cases ht⟩
    · simp
    · simp
    · simp

/-- A census that takes 50 ms, in which the loop makes one as well: asked for in any way it finds
one duplicate, and the gauges show that. -/
theorem duplicate_on_three_paths :
    let answering : Fetch :=
      ⟨some (.ok [⟨"ann", "ann@x"⟩, ⟨"Ann", "ann@X"⟩]), 50, false⟩
    let sources : List Source := [⟨.ofMillis 100, .ofMillis 80, [answering]⟩]
    let r : Http.Request := ⟨"/api/stats/users?since=now", "GET"⟩
    let s := (create {} sources).after [.start 0 false]
    Http.barePath r.path = "/api/stats/users" ∧ r.method = "GET" ∧
    (s.perform (.collect 0)).2 = .report (.ok
      [("stats.users.duplicate_user_entries", 1),
        ("stats.users.has_duplicate_user_entries", 1),
        ("stats.users.mixed_cased_users", 1)]) ∧
    (s.perform (.request 0 r)).2 = .response
      { status := 200, contentType := some "application/json",
        body := (Report.ofTally ⟨1, 1⟩).json } ∧
    (s.perform (.request 0 r)).1.metrics.registry = Gauge.Registry.withLogin {} ⟨1, 1⟩ := by
  intro answering sources r s
  have hpath : Http.barePath r.path = "/api/stats/users" := by
    decide +kernel
  have hhas : s.has 0 = true := by
    decide +kernel
  have hresult : Census.result (s.census 0 .call).2 = .ok ⟨1, 1⟩ := by
    decide +kernel
  have hcalled : (s.perform (.get 0)).2 = .tally (.ok ⟨1, 1⟩) := by
    rw [perform_census rfl hhas, ← hresult]
    rfl
  obtain ⟨-, -, -, -, hok, -, -, hshown⟩ :=
    on_demand_paths_agree {} sources [.start 0 false] 0 r hpath rfl
  exact ⟨hpath, rfl, (hok ⟨1, 1⟩).1.mp hcalled, (hok ⟨1, 1⟩).2.mp hcalled,
    (hshown ⟨1, 1⟩ hcalled _ (.tail _ (.tail _ (.head _)))).1⟩

end Service

end AccountCensus
