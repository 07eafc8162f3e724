import AccountCensus.Gauge.Exposition
import AccountCensus.Gauge.Login
import Mathlib.Data.List.Nodup

/-!
# Registering the login gauges

The three login gauges go into the registry one by one, and a clash with a name that is taken
already takes out again what went in before it. The roll-back works on names, so it is exact only
because a name that went in was free before: `registerAll_taken` says that it leaves the registry
as it was, wherever the clash is, and `registerAll_free` that without a clash exactly the three
gauges are added.

From there on the registry is `withLogin` of the foreign one at some tally, and publishing another
tally changes nothing but that tally (`publish_withLogin`).
-/

namespace AccountCensus.Gauge

/-! ## Adding and rolling back -/

namespace Registry

theorem mem_names {r : Registry} {name : String} :
    name ∈ r.names ↔ ∃ m ∈ r.metrics, m.name = name := by
  simp [names]

/-- No metric of a registry goes by the name of one of these. -/
def Free (r : Registry) (ms : List Metric) : Prop := ∀ m ∈ ms, m.name ∉ r.names

instance (r : Registry) (ms : List Metric) : Decidable (r.Free ms) :=
  inferInstanceAs (Decidable (∀ m ∈ ms, m.name ∉ r.names))

/-- A registry with more metrics at its end. -/
def extend (r : Registry) (ms : List Metric) : Registry := { r with metrics := r.metrics ++ ms }

@[simp] theorem extend_nil (r : Registry) : r.extend [] = r := by
  simp [extend]

@[simp] theorem extend_extend (r : Registry) (xs ys : List Metric) :
    (r.extend xs).extend ys = r.extend (xs ++ ys) := by
  simp [extend]

@[simp] theorem names_extend (r : Registry) (ms : List Metric) :
    (r.extend ms).names = r.names ++ ms.map Metric.name := by
  simp [extend, names]

theorem register_eq_some {r : Registry} {m : Metric} (h : m.name ∉ r.names) :
    r.register m = some (r.extend [m]) := by
  simp [register, extend, h]

theorem register_eq_none {r : Registry} {m : Metric} (h : m.name ∈ r.names) :
    r.register m = none := by
  simp [register, h]

private theorem filter_name_ne {name : String} {ms : List Metric}
    (h : ∀ m ∈ ms, m.name ≠ name) : ms.filter (fun m => decide (m.name ≠ name)) = ms := by
  apply List.filter_eq_self.mpr
  intro m hm
  simpa using h m hm

/-- Taking out a metric that was added under a free name leaves everything else in its place. -/
theorem unregister_extend {r : Registry} {m : Metric} {ms : List Metric}
    (hr : m.name ∉ r.names) (hms : m.name ∉ ms.map Metric.name) :
    (r.extend (m :: ms)).unregister m.name = some (r.extend ms) := by
  have hold : ∀ x ∈ r.metrics, x.name ≠ m.name :=
    fun x hx heq => hr (mem_names.mpr ⟨x, hx, heq⟩)
  have hnew : ∀ x ∈ ms, x.name ≠ m.name :=
    fun x hx heq => hms (List.mem_map.mpr ⟨x, hx, heq⟩)
  have hleft : (r.metrics ++ m :: ms).filter (fun x => decide (x.name ≠ m.name)) =
      r.metrics ++ ms := by
    rw [List.filter_append, filter_name_ne hold, List.filter_cons_of_neg (by simp),
      filter_name_ne hnew]
  rw [unregister, if_pos (by simp)]
  simp only [extend]
  rw [hleft]

/-- **The roll-back is exact**: it takes out what was added, first things first, and nothing
foreign, so every one of its steps finds its metric. -/
theorem rollBack_extend {r : Registry} : ∀ {added : List Metric}, r.Free added →
    (added.map Metric.name).Nodup → (r.extend added).rollBack added = r
  | [], _, _ => by simp [rollBack]
  | m :: ms, hfree, hnodup => by
      rw [List.map_cons, List.nodup_cons] at hnodup
      have hstep := unregister_extend (hfree m List.mem_cons_self) hnodup.1
      have ih := rollBack_extend (fun x hx => hfree x (List.mem_cons_of_mem _ hx)) hnodup.2
      rw [rollBack, List.foldl_cons, hstep]
      exact ih

/-- What becomes of a registration that is under way: all names free, or back to the beginning. -/
theorem registerFrom_extend {r : Registry} : ∀ {added ms : List Metric}, r.Free added →
    ((added ++ ms).map Metric.name).Nodup →
    (r.extend added).registerFrom added ms =
      if r.Free ms then (r.extend (added ++ ms), true) else (r, false)
  | added, [], _, _ => by simp [registerFrom, Free]
  | added, m :: ms, hfree, hnodup => by
      have hadded : (added.map Metric.name).Nodup := by
        rw [List.map_append] at hnodup
        exact hnodup.of_append_left
      have hnew : m.name ∉ added.map Metric.name := by
        rw [List.map_append, List.nodup_append] at hnodup
        intro hm
        exact hnodup.2.2 _ hm _ (by simp) rfl
      -- whether the next name clashes is decided by the foreign names alone
      by_cases hm : m.name ∈ r.names
      · have hnone : (r.extend added).register m = none :=
          register_eq_none (by rw [names_extend]; exact List.mem_append_left _ hm)
        have htaken : ¬ r.Free (m :: ms) := fun h => h m List.mem_cons_self hm
        rw [registerFrom, hnone, if_neg htaken]
        exact congrArg (·, false) (rollBack_extend hfree hadded)
      · have hsome : (r.extend added).register m = some (r.extend (added ++ [m])) := by
          rw [register_eq_some (by rw [names_extend, List.mem_append, not_or]; exact ⟨hm, hnew⟩),
            extend_extend]
        have hfree' : r.Free (added ++ [m]) := by
          intro x hx
          rcases List.mem_append.mp hx with hx | hx
          · exact hfree x hx
          · rw [List.mem_singleton.mp hx]
            exact hm
        have hiff : r.Free (m :: ms) ↔ r.Free ms := by
          simp [Free, hm]
        rw [registerFrom, hsome]
        show (r.extend (added ++ [m])).registerFrom (added ++ [m]) ms = _
        rw [registerFrom_extend hfree' (by simpa using hnodup)]
        simp only [hiff, List.append_assoc, List.singleton_append]

theorem registerAll_free {r : Registry} {ms : List Metric} (hfree : r.Free ms)
    (hnodup : (ms.map Metric.name).Nodup) : r.registerAll ms = (r.extend ms, true) := by
  have h : (r.extend []).registerFrom [] ms =
      if r.Free ms then (r.extend ([] ++ ms), true) else (r, false) :=
    registerFrom_extend (by simp [Free]) hnodup
  rwa [if_pos hfree, extend_nil] at h

/-- One name that is taken, at any position, leaves the registry as it was. -/
theorem registerAll_taken {r : Registry} {ms : List Metric} (htaken : ¬ r.Free ms)
    (hnodup : (ms.map Metric.name).Nodup) : r.registerAll ms = (r, false) := by
  have h : (r.extend []).registerFrom [] ms =
      if r.Free ms then (r.extend ([] ++ ms), true) else (r, false) :=
    registerFrom_extend (by simp [Free]) hnodup
  rwa [if_neg htaken, extend_nil] at h

end Registry

/-! ## The registry with the login gauges -/

theorem gauge_names_ne :
    duplicatesGauge.name ≠ flagGauge.name ∧ duplicatesGauge.name ≠ mixedCasedGauge.name ∧
      flagGauge.name ≠ mixedCasedGauge.name := by
  decide +kernel

theorem loginGauges_nodup : (loginGauges.map Metric.name).Nodup := by
  obtain ⟨hdf, hdm, hfm⟩ := gauge_names_ne
  simp [loginGauges, hdf, hdm, hfm]

namespace Registry

theorem free_loginGauges {r : Registry} :
    r.Free loginGauges ↔ duplicatesGauge.name ∉ r.names ∧ flagGauge.name ∉ r.names ∧
      mixedCasedGauge.name ∉ r.names := by
  simp [Free, loginGauges]

/-- **The registry once the login gauges are in it**: the metrics of others in front, and the
three gauges with the numbers of a tally. -/
def withLogin (r : Registry) (t : Tally) : Registry :=
  r.extend [{ duplicatesGauge with value := clamp t.duplicates },
    { flagGauge with value := t.flag }, { mixedCasedGauge with value := clamp t.mixedCased }]

theorem withLogin_names (r : Registry) (t : Tally) :
    (r.withLogin t).names = r.names ++ loginGauges.map Metric.name := by
  rw [withLogin, names_extend]
  rfl

/-- Each name once: the gauges take none that was taken. -/
theorem withLogin_nodup {r : Registry} (hfree : r.Free loginGauges) (hr : r.names.Nodup)
    (t : Tally) : (r.withLogin t).names.Nodup := by
  rw [withLogin_names, List.nodup_append]
  refine ⟨hr, loginGauges_nodup, ?_⟩
  rintro a ha b hb rfl
  obtain ⟨m, hm, rfl⟩ := List.mem_map.mp hb
  exact hfree m hm ha

/-- What a holder of the gauges reads, in the order of their registration. -/
def readings (r : Registry) : List (Option Int) :=
  loginGauges.map fun g => (r.metrics.find? fun m => m.name = g.name).map Metric.value

private theorem find?_name_of_free {r : Registry} {name : String} (h : name ∉ r.names) :
    r.metrics.find? (fun m => decide (m.name = name)) = none := by
  rw [List.find?_eq_none]
  intro m hm heq
  exact h (mem_names.mpr ⟨m, hm, of_decide_eq_true heq⟩)

theorem readings_withLogin {r : Registry} (hfree : r.Free loginGauges) (t : Tally) :
    (r.withLogin t).readings =
      [some (clamp t.duplicates), some (t.flag : Int), some (clamp t.mixedCased)] := by
  obtain ⟨hd, hf, hm⟩ := free_loginGauges.mp hfree
  obtain ⟨hdf, hdm, hfm⟩ := gauge_names_ne
  simp [readings, loginGauges, withLogin, extend, List.find?_append, List.find?_cons,
    find?_name_of_free hd, find?_name_of_free hf, find?_name_of_free hm, hdf, hdm, hfm]

/-- Setting a gauge leaves the metrics of others alone. -/
theorem set_extend (r : Registry) (ms : List Metric) {name : String} (h : name ∉ r.names)
    (value : Int) :
    (r.extend ms).set name value =
      r.extend (ms.map fun m => if m.name = name then { m with value } else m) := by
  have hr : r.metrics.map (fun m => if m.name = name then { m with value } else m) =
      r.metrics := by
    have hsame : ∀ m ∈ r.metrics, (if m.name = name then { m with value } else m) = id m :=
      fun m hm => if_neg fun heq => h (mem_names.mpr ⟨m, hm, heq⟩)
    rw [List.map_congr_left hsame, List.map_id]
  simp only [set, extend, List.map_append, hr]

/-- A registry that can be printed at all shows every metric. -/
theorem sampleLine_mem_lines {r : Registry} (hr : r.broken = false) {m : Metric}
    (hm : m ∈ r.metrics) : m.sampleLine ∈ r.lines := by
  have hsorted : m ∈ r.sorted := (List.mergeSort_perm _ _).mem_iff.mpr hm
  rw [lines, hr, if_neg (by simp)]
  exact List.mem_flatMap.mpr ⟨m, hsorted, by simp [Metric.lines]⟩

/-- It is a sample, unless its name makes it look like a comment. -/
theorem sampleLine_mem_samples {r : Registry} (hr : r.broken = false) {m : Metric}
    (hm : m ∈ r.metrics) (hname : m.name.startsWith "#" = false) : m.sampleLine ∈ r.samples := by
  refine List.mem_filter.mpr ⟨sampleLine_mem_lines hr hm, ?_⟩
  rw [String.startsWith_string_eq_false_iff] at hname
  rw [Bool.not_eq_true', String.startsWith_string_eq_false_iff]
  intro hprefix
  rw [Metric.sampleLine, String.toList_append, String.toList_append] at hprefix
  cases hchars : m.name.toList with
  | nil =>
      rw [hchars] at hprefix
      simp at hprefix
  | cons first rest =>
      rw [hchars] at hprefix hname
      simp_all

/-- **The three lines of the login gauges**, with the numbers of a tally, are among the samples. -/
theorem login_mem_samples {r : Registry} (hr : r.broken = false) (t : Tally) {m : Metric}
    (hm : m ∈ (withLogin {} t).metrics) : m.sampleLine ∈ (r.withLogin t).samples := by
  have hmem : m ∈ (r.withLogin t).metrics := List.mem_append_right r.metrics hm
  refine sampleLine_mem_samples (r := r.withLogin t) hr hmem ?_
  have hnames : m.name ∈ loginGauges.map Metric.name := by
    rw [← List.nil_append (loginGauges.map Metric.name)]
    exact withLogin_names {} t ▸ List.mem_map_of_mem hm
  have hgrafana : ∀ name ∈ loginGauges.map Metric.name, name.startsWith "#" = false := by
    decide +kernel
  exact hgrafana _ hnames

end Registry

namespace Metrics

@[simp] theorem publish_outcome (m : Metrics) (t : Tally) : (m.publish t).outcome = m.outcome :=
  rfl

@[simp] theorem publish_ready (m : Metrics) (t : Tally) : (m.publish t).ready = m.ready := rfl

theorem publish_withLogin {m : Metrics} {r : Registry} {t : Tally}
    (hfree : r.Free loginGauges) (hm : m.registry = r.withLogin t) (t' : Tally) :
    (m.publish t').registry = r.withLogin t' := by
  obtain ⟨hd, hf, hx⟩ := Registry.free_loginGauges.mp hfree
  obtain ⟨hdf, hdm, hfm⟩ := gauge_names_ne
  simp only [publish, hm, Registry.withLogin]
  rw [Registry.set_extend _ _ hd, Registry.set_extend _ _ hf, Registry.set_extend _ _ hx]
  simp [hdf, hdm, hfm, hdf.symm, hdm.symm, hfm.symm]

/-! ## Requests -/

/-- What the first request makes of a registry, with the outcome that all requests get. -/
def settled (r : Registry) : Metrics :=
  if r.Free loginGauges then { registry := r.withLogin {}, outcome := some (.ok ()) }
  else { registry := r, outcome := some (.error .nameTaken) }

/-- The outcome of registering the login gauges in a registry. -/
def verdict (r : Registry) : Except RegistrationError Unit :=
  if r.Free loginGauges then .ok () else .error .nameTaken

theorem settled_outcome (r : Registry) : (settled r).outcome = some (verdict r) := by
  unfold settled verdict
  split <;> rfl

/-- The first request decides. -/
theorem request_first {m : Metrics} (h : m.outcome = none) :
    m.request = (settled m.registry, verdict m.registry) := by
  unfold settled verdict
  by_cases hfree : m.registry.Free loginGauges
  · have hnew : m.registry.extend loginGauges = m.registry.withLogin {} := rfl
    simp only [request, h, Registry.registerAll_free hfree loginGauges_nodup, if_pos hfree, hnew]
  · simp only [request, h, Registry.registerAll_taken hfree loginGauges_nodup, if_neg hfree]

/-- Every later request gets the outcome of the first one and changes nothing. -/
theorem request_again {m : Metrics} {outcome : Except RegistrationError Unit}
    (h : m.outcome = some outcome) : m.request = (m, outcome) := by
  simp only [request, h]

theorem requests_again {m : Metrics} {outcome : Except RegistrationError Unit}
    (h : m.outcome = some outcome) (n : Nat) :
    m.requests n = (m, List.replicate n outcome) := by
  induction n with
  | zero => rfl
  | succ n ih => simp only [requests, request_again h, ih, List.replicate_succ]

/-- After a request its outcome is the one that is kept. -/
theorem request_outcome (m : Metrics) : m.request.1.outcome = some m.request.2 := by
  cases h : m.outcome with
  | none =>
      rw [request_first h]
      exact settled_outcome _
  | some outcome =>
      rw [request_again h]
      exact h

theorem requests_succ (m : Metrics) (n : Nat) :
    m.requests (n + 1) = (m.request.1, List.replicate (n + 1) m.request.2) := by
  simp only [requests, requests_again (request_outcome m), List.replicate_succ]

theorem request_of_registerAll {m : Metrics} {r : Registry} {all : Bool} (h : m.outcome = none)
    (hr : m.registry.registerAll loginGauges = (r, all)) :
    m.request.1 =
      { registry := r, outcome := some (if all then .ok () else .error .nameTaken) } := by
  cases all <;> simp [request, h, hr]

end Metrics

end AccountCensus.Gauge
