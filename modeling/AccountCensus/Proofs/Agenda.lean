import AccountCensus.Proofs.Turn
import AccountCensus.Service.Command
import Mathlib.Data.Nat.Basic
import Mathlib.Order.Basic

/-!
# Who is woken next

A service looks for its next wake in two stages: each collector offers the earliest wake time of
its loops, and among the offers the earliest is taken. In either stage of equal times the first is
taken, which no fact here needs. `next?_sound` says that the wake that is found is one of a loop,
`next?_least` that no loop wakes earlier, as long as every collector has its turn.
-/

namespace AccountCensus.Service

/-! ## Within a collector -/

namespace Collector

theorem earlier_eq_some {a b : Option (ℕ × ℕ)} {w : ℕ × ℕ} (h : earlier a b = some w) :
    a = some w ∨ b = some w := by
  unfold earlier at h
  split at h
  · exact .inr h
  · exact .inl h
  · split at h
    · exact .inr h
    · exact .inl h

theorem earlier_le_left {a b : Option (ℕ × ℕ)} {t i : ℕ} (h : a = some (t, i)) :
    ∃ u j, earlier a b = some (u, j) ∧ u ≤ t := by
  subst h
  cases b with
  | none => exact ⟨t, i, rfl, le_rfl⟩
  | some w =>
      obtain ⟨u, j⟩ := w
      by_cases hlt : u < t
      · exact ⟨u, j, by simp [earlier, hlt], hlt.le⟩
      · exact ⟨t, i, by simp [earlier, hlt], le_rfl⟩

theorem earlier_le_right {a b : Option (ℕ × ℕ)} {t i : ℕ} (h : b = some (t, i)) :
    ∃ u j, earlier a b = some (u, j) ∧ u ≤ t := by
  subst h
  cases a with
  | none => exact ⟨t, i, rfl, le_rfl⟩
  | some w =>
      obtain ⟨u, j⟩ := w
      by_cases hlt : t < u
      · exact ⟨t, i, by simp [earlier, hlt], le_rfl⟩
      · exact ⟨u, j, by simp [earlier, hlt], by omega⟩

theorem nextAmong_sound {now : ℕ} {w : ℕ × ℕ} : ∀ {k : ℕ} {ls : List Loop},
    nextAmong now k ls = some w →
    ∃ j l, w.2 = k + j ∧ ls[j]? = some l ∧ l.wakeTime? now = some w.1
  | _, [], h => by cases h
  | k, l :: ls, h => by
      rcases earlier_eq_some h with h | h
      · obtain ⟨t, ht, rfl⟩ := Option.map_eq_some_iff.mp h
        exact ⟨0, l, rfl, rfl, ht⟩
      · obtain ⟨j, l', hw, hl', ht⟩ := nextAmong_sound h
        exact ⟨j + 1, l', by omega, hl', ht⟩

theorem nextAmong_least {now u : ℕ} {l : Loop} (hu : l.wakeTime? now = some u) :
    ∀ {k j : ℕ} {ls : List Loop}, ls[j]? = some l →
      ∃ t i, nextAmong now k ls = some (t, i) ∧ t ≤ u
  | _, _, [], h => by simp at h
  | k, 0, l' :: ls, h => by
      obtain rfl : l' = l := Option.some.inj h
      exact earlier_le_left (by rw [hu]; rfl)
  | k, j + 1, l' :: ls, h => by
      have hls : ls[j]? = some l := h
      obtain ⟨t, i, ht, hle⟩ := nextAmong_least (k := k + 1) hu hls
      obtain ⟨t', i', ht', hle'⟩ := earlier_le_right (a := (l'.wakeTime? now).map (·, k)) ht
      exact ⟨t', i', ht', hle'.trans hle⟩

theorem next?_sound {x : Collector} {now t k : ℕ} (h : x.next? now = some (t, k)) :
    ∃ l, x.loops[k]? = some l ∧ l.wakeTime? now = some t := by
  obtain ⟨j, l, hk, hl, ht⟩ := nextAmong_sound h
  obtain rfl : k = j := by simpa using hk
  exact ⟨l, hl, ht⟩

theorem next?_least {x : Collector} {k : ℕ} {l : Loop} (hl : x.loops[k]? = some l) {now u : ℕ}
    (hu : l.wakeTime? now = some u) : ∃ t i, x.next? now = some (t, i) ∧ t ≤ u :=
  nextAmong_least hu hl

end Collector

/-! ## Among collectors -/

theorem nextOf_collector {s : Service} {c : ℕ} {w : Wake} (h : s.nextOf c = some w) :
    w.collector = c := by
  obtain ⟨_, _, rfl⟩ := Option.map_eq_some_iff.mp h
  rfl

theorem nextAmong_sound {s : Service} {w : Wake} : ∀ {cs : List ℕ}, s.nextAmong cs = some w →
    s.nextOf w.collector = some w
  | [], h => by cases h
  | c :: cs, h => by
      rw [nextAmong] at h
      split at h
      · exact nextAmong_sound h
      · rw [nextOf_collector h, h]
      · rename_i v w' hc hcs
        split at h
        · exact nextAmong_sound (hcs.trans h)
        · rw [h] at hc
          rw [nextOf_collector hc, hc]

theorem nextAmong_least {s : Service} {c : ℕ} {v : Wake} (hv : s.nextOf c = some v) :
    ∀ {cs : List ℕ}, c ∈ cs → ∃ w, s.nextAmong cs = some w ∧ w.time ≤ v.time
  | [], h => by simp at h
  | d :: cs, h => by
      rw [nextAmong]
      rcases List.mem_cons.mp h with rfl | h
      · rw [hv]
        cases hcs : s.nextAmong cs with
        | none => exact ⟨v, rfl, le_rfl⟩
        | some w =>
            dsimp only
            split
            · exact ⟨w, rfl, by omega⟩
            · exact ⟨v, rfl, le_rfl⟩
      · obtain ⟨w, hw, hle⟩ := nextAmong_least hv h
        rw [hw]
        cases hd : s.nextOf d with
        | none => exact ⟨w, rfl, hle⟩
        | some u =>
            dsimp only
            split
            · exact ⟨w, rfl, hle⟩
            · exact ⟨u, rfl, by omega⟩

/-- **The next wake is a wake of a loop.** -/
theorem next?_sound {s : Service} {w : Wake} (h : s.next? = some w) :
    ∃ x l, s.collectors[w.collector]? = some x ∧ x.loops[w.loop]? = some l ∧
      l.wakeTime? s.time = some w.time := by
  obtain ⟨⟨t, k⟩, hbind, hw⟩ := Option.map_eq_some_iff.mp (nextAmong_sound h)
  obtain ⟨x, hx, hnext⟩ := Option.bind_eq_some_iff.mp hbind
  obtain ⟨l, hl, ht⟩ := Collector.next?_sound hnext
  rw [← hw]
  exact ⟨x, l, hw ▸ hx, hl, ht⟩

/-- **No loop wakes earlier.** -/
theorem next?_least {s : Service} {c k : ℕ} {x : Collector} {l : Loop} (hturn : c ∈ s.turns)
    (hx : s.collectors[c]? = some x) (hl : x.loops[k]? = some l) {u : ℕ}
    (hu : l.wakeTime? s.time = some u) : ∃ w, s.next? = some w ∧ w.time ≤ u := by
  obtain ⟨t, i, ht, hle⟩ := Collector.next?_least hl hu
  have hof : s.nextOf c = some ⟨t, c, i⟩ := by
    rw [nextOf, hx, Option.bind_some, ht]
    rfl
  obtain ⟨w, hw, hwle⟩ := nextAmong_least hof hturn
  exact ⟨w, hw, hwle.trans hle⟩

end AccountCensus.Service
