import AccountCensus.Proofs.Magnitudes
import AccountCensus.Proofs.Scrape

/-!
# Reading counts off the exposition text

A count comes to the text through a gauge that holds `2 ^ 63 - 1` at most and a magnitude of 53
bits. What scrapers read of it is `shownCount`. Only the set that came last matters, since
publishing a tally leaves nothing of the one before it (`Session.shows_of_free`); up to `2 ^ 53` a
count comes through as it is, and above that its order to other counts does, until the gauge is
full (`monotone_shownCount`). A count that is not zero is never shown as zero
(`shownCount_eq_zero`), so that the flag says what can be read off the count beside it.
-/

namespace AccountCensus.Gauge

open Number.Binary64 (shown monotone_shown shown_of_le positional_shortest)

/-! ## Counts -/

/-- The whole number that is shown for a count. -/
def shownCount (count : ℕ) : ℕ := shown (min count (2 ^ 63 - 1))

theorem clamp_eq (count : ℕ) : clamp count = ((min count (2 ^ 63 - 1) : ℕ) : Int) := by
  show min (count : Int) (2 ^ 63 - 1) = _
  omega

theorem valueText_natCast (n : ℕ) : valueText n = toString (shown n) := by
  rw [valueText, if_neg (Int.not_lt.mpr (Int.natCast_nonneg n)), Int.natAbs_natCast]
  exact positional_shortest n

theorem valueText_clamp (count : ℕ) : valueText (clamp count) = toString (shownCount count) := by
  rw [clamp_eq, valueText_natCast]
  rfl

theorem monotone_shownCount : Monotone shownCount := by
  intro a b hab
  exact monotone_shown (min_le_min_right _ hab)

theorem shownCount_of_le {count : ℕ} (h : count ≤ 2 ^ 53) : shownCount count = count := by
  have hfits : min count (2 ^ 63 - 1) = count := by omega
  rw [shownCount, hfits, shown_of_le h]

/-- A full gauge shows the power of two that is nearest to it. -/
theorem shownCount_of_ge {count : ℕ} (h : 2 ^ 63 - 1 ≤ count) :
    shownCount count = 9223372036854776000 := by
  rw [shownCount, min_eq_right h]
  decide +kernel

theorem shownCount_le (count : ℕ) : shownCount count ≤ 9223372036854776000 := by
  calc shownCount count
      ≤ shownCount (max count (2 ^ 63 - 1)) := monotone_shownCount (le_max_left _ _)
    _ = 9223372036854776000 := shownCount_of_ge (le_max_right _ _)

/-- Nothing is rounded to zero. -/
theorem shownCount_eq_zero {count : ℕ} : shownCount count = 0 ↔ count = 0 := by
  constructor
  · intro h
    by_contra hne
    have hone : shownCount 1 ≤ shownCount count :=
      monotone_shownCount (Nat.one_le_iff_ne_zero.mpr hne)
    rw [shownCount_of_le (by decide), h] at hone
    exact absurd hone (by decide)
  · rintro rfl
    exact shownCount_of_le (Nat.zero_le _)

theorem valueText_flag (t : Tally) :
    valueText t.flag = if shownCount t.duplicates = 0 then "0" else "1" := by
  have hsmall : t.flag ≤ 2 ^ 53 := by
    unfold Tally.flag
    split <;> decide
  rw [valueText_natCast, shown_of_le hsmall]
  by_cases hzero : t.duplicates = 0
  · have hflag : t.flag = 0 := by
      simp [Tally.flag, Tally.hasDuplicates, hzero]
    rw [if_pos (shownCount_eq_zero.mpr hzero), hflag]
    rfl
  · have hflag : t.flag = 1 := by
      simp [Tally.flag, Tally.hasDuplicates, Nat.pos_of_ne_zero hzero]
    rw [if_neg (shownCount_eq_zero.not.mpr hzero), hflag]
    rfl

/-! ## Samples -/

/-- What a scraper has read under a name. -/
def sampled (name : String) (blocks : List Block) : List String :=
  (blocks.filter fun b => b.name = name).map Block.value

private theorem filter_name {m : Metric} : ∀ {ms : List Metric}, (ms.map Metric.name).Nodup →
    m ∈ ms → ms.filter (fun x => decide (x.name = m.name)) = [m]
  | x :: ms, hnodup, hm => by
      rw [List.map_cons, List.nodup_cons] at hnodup
      by_cases hname : x.name = m.name
      · have hnone : ∀ y ∈ ms, ¬ decide (y.name = m.name) = true := by
          intro y hy heq
          exact hnodup.1 (List.mem_map.mpr ⟨y, hy, (of_decide_eq_true heq).trans hname.symm⟩)
        have hx : m = x := by
          rcases List.mem_cons.mp hm with heq | htail
          · exact heq
          · exact absurd (decide_eq_true rfl) (hnone m htail)
        have hrest : ms.filter (fun y => decide (y.name = m.name)) = [] :=
          List.filter_eq_nil_iff.mpr hnone
        rw [List.filter_cons, if_pos (decide_eq_true hname), hrest, hx]
      · have htail : m ∈ ms := by
          rcases List.mem_cons.mp hm with rfl | htail
          · exact absurd rfl hname
          · exact htail
        rw [List.filter_cons_of_neg (by simpa using hname)]
        exact filter_name hnodup.2 htail

/-- A registered metric is sampled once, with its own value. -/
theorem Registry.Named.sampled {r : Registry} (hr : r.Named) {m : Metric}
    (hm : m ∈ r.metrics) : sampled m.name (r.sorted.map Metric.block) = [valueText m.value] := by
  have hnodup : (r.sorted.map Metric.name).Nodup :=
    (r.sorted_perm.map Metric.name).nodup_iff.mpr hr.nodup
  have hfound := filter_name hnodup (r.sorted_perm.mem_iff.mpr hm)
  rw [Gauge.sampled, List.filter_map, List.map_map]
  exact congrArg (List.map (Block.value ∘ Metric.block)) hfound

/-! ## The last set -/

namespace Ledger

/-- Only sets change the tally. -/
theorem tally_add_of_not_set {call : Call} (h : ∀ holder t, call ≠ .set holder t) (l : Ledger) :
    (l.add call).tally = l.tally := by
  cases call with
  | set holder t => exact absurd rfl (h holder t)
  | _ => rfl

/-- **The tally is the one that was set last**, by a caller that was there. -/
theorem tally_of_last_set {earlier later : List Call} {holder : ℕ} {t : Tally}
    (hholder : holder < (ofCalls earlier).callers) (hlater : ∀ h u, .set h u ∉ later) :
    (ofCalls (earlier ++ .set holder t :: later)).tally = t := by
  induction later using List.reverseRecOn with
  | nil =>
      rw [ofCalls_snoc, add, if_pos hholder]
  | append_singleton later call ih =>
      have hcall : ∀ h u, call ≠ .set h u := by
        rintro h u rfl
        exact hlater h u (List.mem_append_right _ (List.mem_singleton.mpr rfl))
      rw [← List.cons_append, ← List.append_assoc, ofCalls_snoc, tally_add_of_not_set hcall]
      exact ih fun h u hmem => hlater h u (List.mem_append_left _ hmem)

end Ledger

/-- **Counts survive the way into the text.** Once the login gauges were asked for, a scraper reads
one sample of each: the last counts that were set, as `shownCount` shows them, and a flag that is
one exactly where the count that is shown for the duplicates is not zero. The text knows nothing of
sets before the last one. Up to `2 ^ 53` a count is shown as it is, above that counts are shown in
their order, and all that fill the gauge are shown alike; none is shown as more than that. -/
theorem counts_survive_exposition {r : Registry} (hr : r.Named) (hfree : r.Free loginGauges)
    (hb : r.broken = false) (calls : List Call) (hasked : (Ledger.ofCalls calls).callers ≠ 0) :
    let t := (Ledger.ofCalls calls).tally
    let text := (Session.after r calls).metrics.registry.exposition
    (∃ blocks, scrape text = some blocks ∧
      sampled duplicatesGauge.name blocks = [toString (shownCount t.duplicates)] ∧
      sampled flagGauge.name blocks = [if shownCount t.duplicates = 0 then "0" else "1"] ∧
      sampled mixedCasedGauge.name blocks = [toString (shownCount t.mixedCased)]) ∧
    (∀ earlier later holder u, calls = earlier ++ .set holder u :: later →
      holder < (Ledger.ofCalls earlier).callers → (∀ h v, .set h v ∉ later) → t = u) ∧
    (∀ calls', (Ledger.ofCalls calls').callers ≠ 0 → (Ledger.ofCalls calls').tally = t →
      (Session.after r calls').metrics.registry.exposition = text) ∧
    (∀ c, c ≤ 2 ^ 53 → shownCount c = c) ∧
    (∀ a b, a ≤ b → shownCount a ≤ shownCount b) ∧
    (∀ c, 2 ^ 63 - 1 ≤ c → shownCount c = 9223372036854776000) ∧
    ∀ c, shownCount c ≤ 9223372036854776000 := by
  intro t text
  have hregistry : ∀ calls', (Ledger.ofCalls calls').callers ≠ 0 →
      (Session.after r calls').metrics.registry =
        r.withLogin (Ledger.ofCalls calls').tally := by
    intro calls' hasked'
    rw [(Session.shows_of_free hfree calls').asked hasked']
  have htext : text = (r.withLogin t).exposition :=
    congrArg Registry.exposition (hregistry calls hasked)
  refine ⟨?_, ?_, ?_, fun c hc => shownCount_of_le hc, fun a b hab => monotone_shownCount hab,
    fun c hc => shownCount_of_ge hc, shownCount_le⟩
  · have hnamed : (r.withLogin t).Named := hr.withLogin hfree t
    have hmem : ∀ m ∈ [{ duplicatesGauge with value := clamp t.duplicates },
        { flagGauge with value := t.flag }, { mixedCasedGauge with value := clamp t.mixedCased }],
        m ∈ (r.withLogin t).metrics := fun m hm => List.mem_append_right _ hm
    refine ⟨(r.withLogin t).sorted.map Metric.block, ?_, ?_, ?_, ?_⟩
    · rw [htext]
      exact hnamed.scrape_exposition hb
    · rw [← valueText_clamp]
      exact hnamed.sampled (hmem { duplicatesGauge with value := clamp t.duplicates } (by simp))
    · rw [← valueText_flag]
      exact hnamed.sampled (hmem { flagGauge with value := t.flag } (by simp))
    · rw [← valueText_clamp]
      exact hnamed.sampled (hmem { mixedCasedGauge with value := clamp t.mixedCased } (by simp))
  · rintro earlier later holder u hcalls hholder hlater
    show (Ledger.ofCalls calls).tally = u
    rw [hcalls]
    exact Ledger.tally_of_last_set hholder hlater
  · intro calls' hasked' htally
    rw [htext, hregistry calls' hasked', htally]

/-- The largest count there is, and the first that is not a magnitude, beside a counter of others:
an earlier set is forgotten. -/
theorem largest_and_first_inexact_count :
    let r : Registry := { metrics := [⟨"up", "", .counter, 7⟩] }
    let calls : List Call :=
      [.request, .set 0 ⟨5, 6⟩, .concurrent 2, .set 2 ⟨2 ^ 64 - 1, 2 ^ 53 + 1⟩, .gather]
    ∃ blocks, scrape (Session.after r calls).metrics.registry.exposition = some blocks ∧
      sampled duplicatesGauge.name blocks = ["9223372036854776000"] ∧
      sampled flagGauge.name blocks = ["1"] ∧
      sampled mixedCasedGauge.name blocks = ["9007199254740992"] := by
  intro r calls
  have hr : r.Named := ⟨by decide +kernel, by decide⟩
  have htally : (Ledger.ofCalls calls).tally = ⟨2 ^ 64 - 1, 2 ^ 53 + 1⟩ := by decide +kernel
  have hlarge : shownCount (2 ^ 64 - 1) = 9223372036854776000 := shownCount_of_ge (by decide)
  have hodd : shownCount (2 ^ 53 + 1) = 9007199254740992 := by decide +kernel
  obtain ⟨⟨blocks, hscrape, hduplicates, hflag, hmixed⟩, -⟩ :=
    counts_survive_exposition hr (by decide +kernel) rfl calls (by decide +kernel)
  rw [htally] at hduplicates hflag hmixed
  dsimp only at hduplicates hflag hmixed
  rw [hlarge] at hduplicates hflag
  rw [hodd] at hmixed
  refine ⟨blocks, hscrape, hduplicates, hflag, hmixed⟩

end AccountCensus.Gauge
