import AccountCensus.Proofs.Watching

/-!
# Requests to the web endpoint

Of all requests one shape starts a pass: one that reads at the path of the report. It adds one whole
pass to the foreground, whichever of the two methods it has (`request_asked`); the response to HEAD
is the one to GET without its body. Every other request leaves the whole service as it is
(`request_idle`), so that it can be left out of any run (`after_filter_idle`), and the passes that a
list of requests starts are counted by their shapes (`count_begins`).
-/

namespace AccountCensus.Service

open Relation

/-! ## One request -/

/-- A pass begins that no loop drives. -/
def Record.beginsPass (r : Record) : Bool := r.loop.isNone && r.happening matches .fetchBegan _

theorem Record.beginsPass_iff {r : Record} :
    r.beginsPass = true ↔ ∃ t d f, r = ⟨t, d, none, .fetchBegan f⟩ := by
  rw [Record.beginsPass, Bool.and_eq_true, Option.isNone_iff_eq_none]
  obtain ⟨t, d, loop, happening⟩ := r
  cases happening <;> simp

section Request

variable {s : Service} {c : ℕ} {r : Http.Request}

theorem perform_request (hhas : s.has c = true) (r : Http.Request) :
    s.perform (.request c r) = ((s.request c r).1, .response (s.request c r).2) :=
  perform_of_has rfl hhas

/-- **What does not ask for a report changes nothing.** -/
theorem request_idle (h : ¬ r.Asks .report) (s : Service) (c : ℕ) : (s.request c r).1 = s := by
  rw [← Http.Request.route_serve_iff] at h
  unfold request
  split
  · rfl
  · rfl
  · rfl
  · exact absurd (by assumption) h

theorem perform_idle (h : ¬ r.Asks .report) (s : Service) (c : ℕ) :
    (s.perform (.request c r)).1 = s := by
  by_cases hhas : s.has c = true
  · rw [perform_request hhas]
    exact request_idle h s c
  · rw [perform_of_not_has rfl hhas]

/-- **What asks for a report** is answered with a census, in the words of its method. -/
theorem request_asked (h : r.Asks .report) (s : Service) (c : ℕ) :
    s.request c r = ((s.census c .report).1,
      (Http.reportResponse (Census.result (s.census c .report).2)).forMethod r.method) := by
  simp only [request, Http.Request.route_serve_iff.mpr h]

theorem reportResponse_status (result : Except CensusError Tally) :
    (Http.reportResponse result).status = 200 ∨ (Http.reportResponse result).status = 500 := by
  cases result with
  | ok t => exact .inl rfl
  | error e => exact .inr rfl

theorem request_exposition (h : r.Asks .exposition) (s : Service) (c : ℕ) :
    s.request c r =
      (s, (Http.expositionResponse s.metrics.registry.exposition).forMethod r.method) := by
  simp only [request, Http.Request.route_serve_iff.mpr h]

/-- A method other than the two is told which two they are. -/
theorem request_wrongMethod {resource : Http.Resource} (hpath : Http.Names r.path resource.path)
    (h : ¬ r.Reads) (s : Service) (c : ℕ) :
    s.request c r = (s, { status := 405, allow := some "GET,HEAD" }) := by
  rw [request, Http.Request.route_wrongMethod_iff.mpr ⟨⟨resource, hpath⟩, h⟩]
  rfl

theorem request_unknownPath (h : ∀ resource : Http.Resource, ¬ Http.Names r.path resource.path)
    (s : Service) (c : ℕ) : s.request c r = (s, { status := 404 }) := by
  rw [request, Http.Request.route_unknownPath_iff.mpr h]
  rfl

end Request

/-! ## Passes that begin -/

theorem has_of_steps {s s' : Service} (h : ReflTransGen Step s s') (c : ℕ) :
    s'.has c = s.has c := by
  rw [has, has, ready_of_steps h, length_of_steps h]

theorem countP_beginsPass_pos_iff {records : List Record} :
    0 < records.countP Record.beginsPass ↔ ∃ t d f, ⟨t, d, none, .fetchBegan f⟩ ∈ records := by
  rw [List.countP_pos_iff]
  constructor
  · rintro ⟨record, hmem, hbegins⟩
    obtain ⟨t, d, f, rfl⟩ := Record.beginsPass_iff.mp hbegins
    exact ⟨t, d, f, hmem⟩
  · rintro ⟨t, d, f, hmem⟩
    exact ⟨_, hmem, rfl⟩

theorem countP_beginsPass_foreground (records : List Record) :
    (foreground records).countP Record.beginsPass = records.countP Record.beginsPass := by
  rw [foreground, List.countP_filter]
  refine List.countP_congr fun r _ => ?_
  rw [Bool.and_eq_true, and_iff_left_of_imp]
  exact fun h => (Bool.and_eq_true_iff.mp h).1

/-- One pass begins in a whole pass. -/
theorem countP_beginsPass_wholePass (c : ℕ) (timeout : Duration) (driver : Census.Driver) (t : ℕ)
    (f : Fetch) : (inForeground c (wholePass timeout driver t f)).countP Record.beginsPass = 1 :=
  rfl

/-- What has been noted of the foreground since an earlier state. -/
theorem foreground_since {s s' : Service} {new : List Record} (h : ReflTransGen Step s s')
    (hnew : foreground s'.history = new ++ foreground s.history) :
    foreground (s'.since s) = new.reverse := by
  rw [since_of_steps h, foreground, List.filter_append, List.filter_reverse] at hnew
  exact List.reverse_eq_iff.mp (List.append_cancel_right hnew)

theorem since_self (s : Service) : s.since s = [] := since_of_append (List.nil_append _).symm

theorem since_trans {s s' s'' : Service} (h : ReflTransGen Step s s')
    (h' : ReflTransGen Step s' s'') : s''.since s = s'.since s ++ s''.since s' := by
  have hnew : s''.history = ((s''.since s').reverse ++ (s'.since s).reverse) ++ s.history := by
    rw [List.append_assoc, ← since_of_steps h, ← since_of_steps h']
  rw [since_of_append hnew, List.reverse_append, List.reverse_reverse, List.reverse_reverse]

section Requests

variable {s : Service} (hs : s.Orderly) {c : ℕ} (hhas : s.has c = true)
include hs hhas

/-- **A request for a report adds one whole pass to the foreground.** -/
theorem since_asked {r : Http.Request} (h : r.Asks .report) {x : Collector}
    (hx : s.collectors[c]? = some x) :
    foreground ((s.perform (.request c r)).1.since s) =
      (inForeground c (wholePass x.timeout .report s.time x.beginFetch.2)).reverse := by
  refine foreground_since (steps_of_strides (perform_strides hs _)) ?_
  rw [perform_request hhas, request_asked h]
  exact census_foreground hx .report

/-- A request begins one pass if it asks for a report, and none otherwise. -/
theorem count_begins_request (r : Http.Request) :
    ((s.perform (.request c r)).1.since s).countP Record.beginsPass =
      if r.Asks .report then 1 else 0 := by
  split
  · rename_i h
    obtain ⟨x, hx⟩ := exists_of_has hhas
    rw [← countP_beginsPass_foreground, since_asked hs hhas h hx, List.countP_reverse]
    exact countP_beginsPass_wholePass ..
  · rename_i h
    rw [perform_idle h, since_self]
    rfl

/-- **Requests begin as many passes as there are requests for a report.** -/
theorem count_begins (requests : List Http.Request) :
    ((s.after (requests.map (.request c))).since s).countP Record.beginsPass =
      requests.countP fun r => r.Asks .report := by
  induction requests using List.reverseRecOn with
  | nil =>
      show (s.since s).countP _ = 0
      rw [since_self]
      rfl
  | append_singleton requests r ih =>
      have hsteps := after_steps hs (requests.map (.request c))
      have hs' := orderly_of_steps hsteps hs
      rw [List.map_append, List.map_singleton, after_snoc,
        since_trans hsteps (steps_of_strides (perform_strides hs' _)), List.countP_append, ih,
        count_begins_request hs' ((has_of_steps hsteps c).trans hhas), List.countP_append,
        List.countP_singleton]
      simp only [decide_eq_true_eq]

end Requests

/-! ## Any traffic -/

/-- A request that does not ask for a report. -/
def Command.isIdle : Command → Bool
  | .request _ r => !decide (r.Asks .report)
  | _ => false

/-- **Requests of other shapes can be left out of any run.** -/
theorem after_filter_idle (s : Service) (commands : List Command) :
    s.after (commands.filter (!·.isIdle)) = s.after commands := by
  induction commands generalizing s with
  | nil => rfl
  | cons command commands ih =>
      show _ = (s.perform command).1.after commands
      cases hidle : command.isIdle with
      | false =>
          rw [List.filter_cons_of_pos (by rw [hidle]; rfl)]
          exact ih _
      | true =>
          have hsame : (s.perform command).1 = s := by
            cases command with
            | request c r => exact perform_idle (by simpa [Command.isIdle] using hidle) s c
            | _ => cases hidle
          rw [List.filter_cons_of_neg (by rw [hidle]; exact Bool.false_ne_true), ih, hsame]

/-- **One request shape starts a pass.** After any commands, and while loops are in flight:

- a request begins a pass exactly if its target names the path of the report and its method is GET
  or HEAD; of a list of requests as many begin one as have this shape;
- both methods then add the same whole pass, lead to the same service, and are answered with the
  same status, HEAD without the body;
- any other request leaves the whole service as it is, now and wherever it comes in a run;
- it is answered with the exposition text if it reads at that path, with the allowed methods if it
  has another method at one of the two paths, and as unknown at every other path. -/
theorem one_request_shape_starts_a_pass (foreign : Gauge.Registry) (sources : List Source)
    (commands : List Command) (c : ℕ)
    (hhas : ((create foreign sources).after commands).has c = true) :
    let s := (create foreign sources).after commands
    (∀ r : Http.Request,
      (∃ t d f, ⟨t, d, none, .fetchBegan f⟩ ∈ (s.perform (.request c r)).1.since s) ↔
        Http.Names r.path "/api/stats/users" ∧ (r.method = "GET" ∨ r.method = "HEAD")) ∧
    (∀ requests : List Http.Request,
      ((s.after (requests.map (.request c))).since s).countP Record.beginsPass =
        requests.countP fun r => r.Asks .report) ∧
    (∀ target target' : String, Http.Names target "/api/stats/users" →
      Http.Names target' "/api/stats/users" → ∃ s' x response, s.collectors[c]? = some x ∧
        foreground (s'.since s) =
          (inForeground c (wholePass x.timeout .report s.time x.beginFetch.2)).reverse ∧
        (response.status = 200 ∨ response.status = 500) ∧
        s.perform (.request c ⟨target, "GET"⟩) = (s', .response response) ∧
        s.perform (.request c ⟨target', "HEAD"⟩) = (s', .response { response with body := "" })) ∧
    (∀ r : Http.Request,
      ¬ (Http.Names r.path "/api/stats/users" ∧ (r.method = "GET" ∨ r.method = "HEAD")) →
        (s.perform (.request c r)).1 = s) ∧
    (∀ commands', s.after (commands'.filter (!·.isIdle)) = s.after commands') ∧
    (∀ target, Http.Names target "/metrics" →
      (s.perform (.request c ⟨target, "GET"⟩)).2 = .response
        { status := 200, contentType := some Http.plainText,
          body := s.metrics.registry.exposition } ∧
      (s.perform (.request c ⟨target, "HEAD"⟩)).2 = .response
        { status := 200, contentType := some Http.plainText }) ∧
    (∀ r : Http.Request, Http.Names r.path "/metrics" ∨ Http.Names r.path "/api/stats/users" →
      r.method ≠ "GET" → r.method ≠ "HEAD" → (s.perform (.request c r)).2 = .response
        { status := 405, allow := some "GET,HEAD" }) ∧
    (∀ r : Http.Request, ¬ Http.Names r.path "/metrics" →
      ¬ Http.Names r.path "/api/stats/users" →
      (s.perform (.request c r)).2 = .response { status := 404 }) := by
  intro s
  have hs : s.Orderly := after_orderly (create_orderly foreign sources) commands
  refine ⟨fun r => ?_, count_begins hs hhas, fun target target' hnames hnames' => ?_,
    fun r h => perform_idle h s c, after_filter_idle s, fun target hnames => ?_,
    fun r hpath hget hhead => ?_, fun r hmetrics hreport => ?_⟩
  · rw [← countP_beginsPass_pos_iff, count_begins_request hs hhas r]
    show _ ↔ r.Asks .report
    by_cases h : r.Asks .report <;> simp [h]
  · obtain ⟨x, hx⟩ := exists_of_has hhas
    have hget : (Http.Request.mk target "GET").Asks .report := ⟨hnames, .inl rfl⟩
    have hhead : (Http.Request.mk target' "HEAD").Asks .report := ⟨hnames', .inr rfl⟩
    have hsince := since_asked hs hhas hget hx
    rw [perform_request hhas, request_asked hget] at hsince
    refine ⟨(s.census c .report).1, x, Http.reportResponse (Census.result (s.census c .report).2),
      hx, hsince, reportResponse_status _, ?_, ?_⟩
    · rw [perform_request hhas, request_asked hget]
      rfl
    · rw [perform_request hhas, request_asked hhead]
      rfl
  · have hget : (Http.Request.mk target "GET").Asks .exposition := ⟨hnames, .inl rfl⟩
    have hhead : (Http.Request.mk target "HEAD").Asks .exposition := ⟨hnames, .inr rfl⟩
    rw [perform_request hhas, request_exposition hget, perform_request hhas,
      request_exposition hhead]
    exact ⟨rfl, rfl⟩
  · have hreads : ¬ r.Reads := fun h => h.elim hget hhead
    rw [perform_request hhas]
    obtain ⟨resource, hpath⟩ : ∃ resource : Http.Resource, Http.Names r.path resource.path :=
      hpath.elim (fun h => ⟨.exposition, h⟩) fun h => ⟨.report, h⟩
    rw [request_wrongMethod hpath hreads]
  · rw [perform_request hhas, request_unknownPath fun resource => ?_]
    cases resource with
    | exposition => exact hmetrics
    | report => exact hreport

/-- Near misses, while a loop has a fetch in flight: a slash more, a capital letter and a method in
small letters. Of five requests the one that asks with HEAD and a query begins a pass, and it leads
to the same service as GET. -/
theorem near_misses_start_no_pass :
    let source : Source := ⟨.ofMillis 100, .ofMillis 80, [⟨some (.ok []), 50, false⟩]⟩
    let s := (create {} [source]).after [.start 0 false, .advance 30]
    let requests : List Http.Request := [⟨"/api/stats/users/", "GET"⟩,
      ⟨"/api/stats/Users", "GET"⟩, ⟨"/api/stats/users", "get"⟩,
      ⟨"/api/stats/users?fresh=/metrics", "HEAD"⟩, ⟨"/metrics", "GET"⟩]
    s.has 0 = true ∧
    ((s.after (requests.map (.request 0))).since s).countP Record.beginsPass = 1 ∧
    (∃ s' response, s.perform (.request 0 ⟨"/api/stats/users", "GET"⟩) = (s', .response response) ∧
      s.perform (.request 0 ⟨"/api/stats/users?fresh=/metrics", "HEAD"⟩) =
        (s', .response { response with body := "" })) ∧
    (s.perform (.request 0 ⟨"/metrics", "HEAD"⟩)).2 =
      .response { status := 200, contentType := some Http.plainText } ∧
    s.perform (.request 0 ⟨"/api/stats/users/", "GET"⟩) = (s, .response { status := 404 }) ∧
    s.perform (.request 0 ⟨"/api/stats/users", "get"⟩) =
      (s, .response { status := 405, allow := some "GET,HEAD" }) := by
  intro source s requests
  have hhas : s.has 0 = true := by decide +kernel
  obtain ⟨-, hcount, hasked, hidle, -, hexposition, hmethod, hpath⟩ :=
    one_request_shape_starts_a_pass {} [source] [.start 0 false, .advance 30] 0 hhas
  obtain ⟨s', -, response, -, -, -, hget, hhead⟩ :=
    hasked "/api/stats/users" "/api/stats/users?fresh=/metrics" (by decide +kernel)
      (by decide +kernel)
  refine ⟨hhas, (hcount requests).trans (by decide +kernel), ⟨s', response, hget, hhead⟩,
    (hexposition "/metrics" (by decide +kernel)).2, Prod.ext ?_ ?_, Prod.ext ?_ ?_⟩
  · exact hidle _ (by decide +kernel)
  · exact hpath _ (by decide +kernel) (by decide +kernel)
  · exact hidle _ (by decide +kernel)
  · exact hmethod _ (by decide +kernel) (by decide) (by decide)

end AccountCensus.Service
