import AccountCensus.Number.Binary64
import Mathlib.Order.Monotone.Basic
import Mathlib.Tactic.Ring

/-!
# Natural numbers as magnitudes

The decimal number that is shown for a natural number lies, as the number itself does, among the
numbers that read back as its magnitude (`ofNat_cell`, `Whole.shortest_cell`). Cells are intervals
that meet at their ends at most, and ascend with the exponent and then with the mantissa
(`Below.high_le_low`). So numbers in different cells are shown in their order, and numbers in one
cell are shown alike: what is shown never descends (`monotone_shown`). Below `2 ^ 53` no cell has
room for a second whole number (`shown_of_le`).
-/

namespace AccountCensus.Number

/-! ## Rounding -/

/-- Rounding takes the whole number below, or the one above, whichever is at most a half away. -/
theorem roundHalfEven_cases (num den : ℕ) :
    roundHalfEven num den = num / den ∧ 2 * (num % den) ≤ den ∨
      roundHalfEven num den = num / den + 1 ∧ den ≤ 2 * (num % den) := by
  unfold roundHalfEven
  dsimp only
  split
  · exact .inr ⟨rfl, by omega⟩
  · split
    · exact .inl ⟨rfl, by omega⟩
    · -- a tie, where the last bit decides
      rcases Nat.mod_two_eq_zero_or_one (num / den) with heven | hodd
      · exact .inl ⟨by rw [heven, Nat.add_zero], by omega⟩
      · exact .inr ⟨by rw [hodd], by omega⟩

/-- A multiple of the divisor is hit within half of the divisor. -/
theorem roundHalfEven_near {num den : ℕ} (hden : 0 < den) :
    2 * (roundHalfEven num den * den) ≤ 2 * num + den ∧
      2 * num ≤ 2 * (roundHalfEven num den * den) + den := by
  have hdiv : num / den * den + num % den = num := Nat.div_add_mod' num den
  have hmod : num % den < den := Nat.mod_lt num hden
  rcases roundHalfEven_cases num den with ⟨hround, hhalf⟩ | ⟨hround, hhalf⟩
  · rw [hround]
    omega
  · have hsucc : (num / den + 1) * den = num / den * den + den := Nat.succ_mul _ _
    rw [hround, hsucc]
    omega

/-- Bounds that are whole numbers survive rounding. -/
theorem roundHalfEven_between {num den a b : ℕ} (hden : 0 < den) (ha : a * den ≤ num)
    (hb : num < b * den) : a ≤ roundHalfEven num den ∧ roundHalfEven num den ≤ b := by
  have hlow : a ≤ num / den := (Nat.le_div_iff_mul_le hden).mpr ha
  have hhigh : num / den < b := (Nat.div_lt_iff_lt_mul hden).mpr hb
  rcases roundHalfEven_cases num den with ⟨hround, -⟩ | ⟨hround, -⟩ <;> omega

namespace Binary64

/-! ## Cells -/

/-- A magnitude without decimals that has a full mantissa, unless its exponent is zero. -/
structure Whole (x : Binary64) : Prop where
  exponent : 0 ≤ x.exponent
  mantissa : x.mantissa < 2 ^ 53
  full : 0 < x.exponent → 2 ^ 52 ≤ x.mantissa

/-- A number, in quarters of a unit, that reads back as a magnitude, or lies at the end of those
that do. -/
def InCell (x : Binary64) (quarters : ℕ) : Prop :=
  x.interval.low ≤ quarters ∧ quarters ≤ x.interval.high

/-- A lower exponent, or the same one and a lower mantissa. -/
def Below (x y : Binary64) : Prop :=
  x.exponent < y.exponent ∨ x.exponent = y.exponent ∧ x.mantissa < y.mantissa

theorem below_or_eq_or_below (x y : Binary64) : x.Below y ∨ x = y ∨ y.Below x := by
  obtain ⟨m, e⟩ := x
  obtain ⟨m', e'⟩ := y
  simp only [Below, mk.injEq]
  omega

section

variable {x y : Binary64}

theorem Whole.quarterGap (hx : x.Whole) : x.quarterGap = 2 ^ x.exponent.toNat :=
  if_pos hx.exponent

theorem Whole.places (hx : x.Whole) : x.places = 0 :=
  Int.toNat_of_nonpos (Int.neg_nonpos_of_nonneg hx.exponent)

theorem interval_value (x : Binary64) : x.interval.value = 4 * x.mantissa * x.quarterGap := rfl

theorem interval_high (x : Binary64) :
    x.interval.high = 4 * x.mantissa * x.quarterGap + 2 * x.quarterGap := rfl

theorem Whole.interval_low (hx : x.Whole) :
    x.interval.low = 4 * x.mantissa * x.quarterGap -
      (if x.mantissa = 2 ^ 52 then x.quarterGap else 2 * x.quarterGap) := by
  have hexp : minExponent < x.exponent := lt_of_lt_of_le (by decide) hx.exponent
  have hnarrow : (x.mantissa == Nat.pow 2 52 && decide (minExponent < x.exponent)) =
      decide (x.mantissa = 2 ^ 52) := by
    rw [decide_eq_true hexp, Bool.and_true]
    rfl
  show _ - (if (x.mantissa == Nat.pow 2 52 && decide (minExponent < x.exponent)) = true
    then x.quarterGap else 2 * x.quarterGap) = _
  simp only [hnarrow, decide_eq_true_eq]

/-- **Cells ascend**: the lower one ends before the upper one begins, or where it begins. -/
theorem Below.high_le_low (h : x.Below y) (hx : x.Whole) (hy : y.Whole) :
    x.interval.high ≤ y.interval.low := by
  rw [interval_high, hy.interval_low]
  rcases h with hexp | ⟨hexp, hmantissa⟩
  · -- the upper steps are at least twice as long, and the lower mantissas are 53 bits at most
    have hfull : 2 ^ 52 ≤ y.mantissa := hy.full (lt_of_le_of_lt hx.exponent hexp)
    have hlt : x.mantissa < 2 ^ 53 := hx.mantissa
    have hgap : 2 * x.quarterGap ≤ y.quarterGap := by
      rw [hx.quarterGap, hy.quarterGap, ← pow_succ']
      exact Nat.pow_le_pow_right Nat.two_pos (by have := hx.exponent; omega)
    have hhigh : 4 * x.mantissa * x.quarterGap + 2 * x.quarterGap ≤
        (2 ^ 54 - 1) * (2 * x.quarterGap) := by
      calc 4 * x.mantissa * x.quarterGap + 2 * x.quarterGap
          = (2 * x.mantissa + 1) * (2 * x.quarterGap) := by ring
        _ ≤ (2 ^ 54 - 1) * (2 * x.quarterGap) := Nat.mul_le_mul_right _ (by omega)
    have hlow : (2 ^ 54 - 1) * y.quarterGap ≤ 4 * y.mantissa * y.quarterGap -
        (if y.mantissa = 2 ^ 52 then y.quarterGap else 2 * y.quarterGap) := by
      split
      · rename_i heq
        rw [heq, Nat.sub_mul]
        omega
      · have hmore : (2 ^ 54 + 1) * y.quarterGap ≤ 4 * y.mantissa * y.quarterGap :=
          Nat.mul_le_mul_right _ (by omega)
        omega
    exact hhigh.trans ((Nat.mul_le_mul_left _ hgap).trans hlow)
  · have hgap : x.quarterGap = y.quarterGap := by
      rw [hx.quarterGap, hy.quarterGap, hexp]
    have hnext : 4 * x.mantissa * y.quarterGap + 4 * y.quarterGap ≤
        4 * y.mantissa * y.quarterGap := by
      calc 4 * x.mantissa * y.quarterGap + 4 * y.quarterGap
          = 4 * (x.mantissa + 1) * y.quarterGap := by ring
        _ ≤ 4 * y.mantissa * y.quarterGap := Nat.mul_le_mul_right _ (by omega)
    rw [hgap]
    split <;> omega

end

/-! ## The magnitude of a natural number -/

theorem ofNat_of_lt {n : ℕ} (h : n < 2 ^ 53) : ofNat n = ⟨n, 0⟩ := if_pos h

/-- Up to 53 bits the next number is one away. -/
theorem quarterGap_ofNat_of_lt {n : ℕ} (h : n < 2 ^ 53) : (ofNat n).quarterGap = 1 := by
  rw [ofNat_of_lt h]
  rfl

/-- A number of more than 53 bits, counted in steps that leave it 53 of them. -/
theorem exists_scale {n : ℕ} (h : 2 ^ 53 ≤ n) : ∃ k : ℕ,
    ofNat n = ofRounded (roundHalfEven n (2 ^ k)) k ∧
      2 ^ 52 * 2 ^ k ≤ n ∧ n < 2 ^ 53 * 2 ^ k := by
  have hne : n ≠ 0 := by omega
  have hlog : 53 ≤ n.log2 := (Nat.le_log2 hne).mpr h
  refine ⟨n.log2 - 52, if_neg (Nat.not_lt.mpr h), ?_, ?_⟩
  · rw [← pow_add, show 52 + (n.log2 - 52) = n.log2 by omega]
    exact Nat.log2_self_le hne
  · rw [← pow_add, show 53 + (n.log2 - 52) = n.log2 + 1 by omega]
    exact Nat.lt_log2_self

/-- A mantissa that a number is rounded to within half a step has the number in its cell, also
where it is rounded up to 54 bits. -/
theorem ofRounded_cell {m k n : ℕ} (hm : 2 ^ 52 ≤ m ∧ m ≤ 2 ^ 53) (hn : 2 ^ 52 * 2 ^ k ≤ n)
    (hnear : 2 * (m * 2 ^ k) ≤ 2 * n + 2 ^ k ∧ 2 * n ≤ 2 * (m * 2 ^ k) + 2 ^ k) :
    (ofRounded m k).Whole ∧ (ofRounded m k).InCell (4 * n) := by
  by_cases hcarry : m = 2 ^ 53
  · have hround : ofRounded m k = ⟨2 ^ 52, (k + 1 : ℕ)⟩ := if_pos hcarry
    have hwhole : (ofRounded m k).Whole := by
      rw [hround]
      exact ⟨Int.natCast_nonneg _, Nat.pow_lt_pow_right (by decide) (by decide), fun _ => le_rfl⟩
    have hgap : (ofRounded m k).quarterGap = 2 * 2 ^ k := by
      rw [hwhole.quarterGap, hround, Int.toNat_natCast, pow_succ']
    refine ⟨hwhole, ?_⟩
    rw [InCell, hwhole.interval_low, interval_high, hgap, hround]
    subst hcarry
    simp only [if_true]
    omega
  · have hround : ofRounded m k = ⟨m, k⟩ := if_neg hcarry
    have hwhole : (ofRounded m k).Whole := by
      rw [hround]
      exact ⟨Int.natCast_nonneg _, lt_of_le_of_ne hm.2 hcarry, fun _ => hm.1⟩
    have hgap : (ofRounded m k).quarterGap = 2 ^ k := by
      rw [hwhole.quarterGap, hround, Int.toNat_natCast]
    refine ⟨hwhole, ?_⟩
    rw [InCell, hwhole.interval_low, interval_high, hgap, hround]
    dsimp only
    rw [Nat.mul_assoc]
    split
    · -- below the mantissa the steps are half as long, but the number is not below it
      rename_i hpower
      subst hpower
      omega
    · omega

/-- **A number lies in the cell of its magnitude.** -/
theorem ofNat_cell (n : ℕ) : (ofNat n).Whole ∧ (ofNat n).InCell (4 * n) := by
  rcases Nat.lt_or_ge n (2 ^ 53) with hlt | hge
  · have hwhole : (ofNat n).Whole := by
      rw [ofNat_of_lt hlt]
      exact ⟨le_rfl, hlt, fun h => absurd h (lt_irrefl _)⟩
    refine ⟨hwhole, ?_⟩
    rw [InCell, hwhole.interval_low, interval_high, quarterGap_ofNat_of_lt hlt, ofNat_of_lt hlt]
    dsimp only
    omega
  · obtain ⟨k, hofNat, hlow, hhigh⟩ := exists_scale hge
    rw [hofNat]
    exact ofRounded_cell (roundHalfEven_between (Nat.two_pow_pos k) hlow hhigh) hlow
      (roundHalfEven_near (Nat.two_pow_pos k))

/-! ## The shortest decimal number -/

/-- The whole number that a decimal number without decimals stands for. -/
def Decimal.whole (d : Decimal) : ℕ := d.digits * 10 ^ d.exponent.toNat

namespace Interval

theorem contains_between {i : Interval} {n : ℕ} (h : i.contains n = true) :
    i.low ≤ n ∧ n ≤ i.high := by
  unfold contains at h
  split at h <;> simp only [Bool.and_eq_true, decide_eq_true_eq] at h <;> omega

/-- The multiple that is taken is one that was found in the interval. -/
theorem contains_nearestMultiple {i : Interval} {step factor : ℕ}
    (h : i.nearestMultiple step = some factor) : i.contains (factor * step) = true := by
  unfold nearestMultiple at h
  dsimp only at h
  split at h
  · rename_i hbelow habove
    obtain rfl := Option.some.inj h
    split
    · exact hbelow
    · exact habove
  · rename_i hbelow _
    exact Option.some.inj h ▸ hbelow
  · rename_i _ habove
    exact Option.some.inj h ▸ habove
  · cases h

/-- The search never leaves the interval, also where it comes down to the value itself. -/
theorem shortest_between {i : Interval} (hvalue : i.low ≤ i.value ∧ i.value ≤ i.high)
    (hfour : 4 ∣ i.value) (power : ℕ) :
    i.low ≤ 4 * ((i.shortest power).1 * 10 ^ (i.shortest power).2) ∧
      4 * ((i.shortest power).1 * 10 ^ (i.shortest power).2) ≤ i.high := by
  induction power with
  | zero =>
      rw [shortest, pow_zero, Nat.mul_one, Nat.mul_div_cancel' hfour]
      exact hvalue
  | succ power ih =>
      rw [shortest]
      split
      · rename_i factor hfound
        have hin := contains_between (contains_nearestMultiple hfound)
        have hstep : factor * (4 * Nat.pow 10 (power + 1)) = 4 * (factor * 10 ^ (power + 1)) :=
          Nat.mul_left_comm ..
        rwa [hstep] at hin
      · exact ih

end Interval

theorem shortest_zero {x : Binary64} (h : x.mantissa = 0) : x.shortest = ⟨0, 0⟩ := if_pos h

/-- A magnitude without decimals takes what the search finds. -/
theorem Whole.exists_shortest {x : Binary64} (hx : x.Whole) (h : x.mantissa ≠ 0) :
    ∃ power, x.shortest =
      ⟨(x.interval.shortest power).1, (x.interval.shortest power).2⟩ := by
  refine ⟨(Nat.toDigits 10 x.interval.value).length, ?_⟩
  rw [shortest, if_neg h, hx.places]
  simp

theorem Whole.shortest_exponent {x : Binary64} (hx : x.Whole) : 0 ≤ x.shortest.exponent := by
  by_cases hzero : x.mantissa = 0
  · rw [shortest_zero hzero]
  · obtain ⟨power, hshortest⟩ := hx.exists_shortest hzero
    rw [hshortest]
    exact Int.natCast_nonneg _

/-- **The shortest decimal number lies in the cell of its magnitude.** -/
theorem Whole.shortest_cell {x : Binary64} (hx : x.Whole) : x.InCell (4 * x.shortest.whole) := by
  have hlow : x.interval.low ≤ x.interval.value := by
    rw [hx.interval_low]
    exact Nat.sub_le _ _
  have hhigh : x.interval.value ≤ x.interval.high := Nat.le_add_right _ _
  by_cases hzero : x.mantissa = 0
  · have hvalue : 4 * x.shortest.whole = x.interval.value := by
      rw [shortest_zero hzero, interval_value, hzero, Nat.mul_zero, Nat.zero_mul]
      rfl
    rw [hvalue]
    exact ⟨hlow, hhigh⟩
  · obtain ⟨power, hshortest⟩ := hx.exists_shortest hzero
    have hfour : 4 ∣ x.interval.value := by
      rw [interval_value, Nat.mul_assoc]
      exact Nat.dvd_mul_right _ _
    rw [hshortest]
    exact Interval.shortest_between ⟨hlow, hhigh⟩ hfour power

/-! ## What is shown -/

/-- The whole number that is shown for a whole number. -/
def shown (n : ℕ) : ℕ := (ofNat n).shortest.whole

/-- **What is shown never descends.** -/
theorem monotone_shown : Monotone shown := by
  intro a b hab
  obtain ⟨ha, hina⟩ := ofNat_cell a
  obtain ⟨hb, hinb⟩ := ofNat_cell b
  have hshowna : (ofNat a).InCell (4 * shown a) := ha.shortest_cell
  have hshownb : (ofNat b).InCell (4 * shown b) := hb.shortest_cell
  rcases below_or_eq_or_below (ofNat a) (ofNat b) with hbelow | hsame | habove
  · have hends := hbelow.high_le_low ha hb
    have hle : 4 * shown a ≤ 4 * shown b := hshowna.2.trans (hends.trans hshownb.1)
    omega
  · exact le_of_eq (congrArg (fun x => x.shortest.whole) hsame)
  · -- then the numbers are in both cells, so that they are one number
    have hends := habove.high_le_low hb ha
    have hle : 4 * b ≤ 4 * a := hinb.2.trans (hends.trans hina.1)
    obtain rfl : a = b := by omega
    exact le_rfl

/-- **Up to `2 ^ 53` a number is shown as it is.** -/
theorem shown_of_le {n : ℕ} (h : n ≤ 2 ^ 53) : shown n = n := by
  rcases Nat.lt_or_eq_of_le h with hlt | rfl
  · obtain ⟨hwhole, -⟩ := ofNat_cell n
    have hin : (ofNat n).InCell (4 * shown n) := hwhole.shortest_cell
    rw [InCell, hwhole.interval_low, interval_high, quarterGap_ofNat_of_lt hlt,
      ofNat_of_lt hlt] at hin
    dsimp only at hin
    split at hin <;> omega
  · decide +kernel

/-! ## Positional text -/

theorem toDigits_mul_pow {d : ℕ} (hd : 0 < d) (k : ℕ) :
    Nat.toDigits 10 (d * 10 ^ k) = Nat.toDigits 10 d ++ List.replicate k '0' := by
  induction k with
  | zero => simp
  | succ k ih =>
      have hpos : 0 < d * 10 ^ k := Nat.mul_pos hd (Nat.pow_pos (by decide))
      have hten : d * 10 ^ (k + 1) = 10 * (d * 10 ^ k) + 0 := by ring
      rw [hten, ← Nat.toDigits_append_toDigits (by decide) hpos (by decide), ih,
        List.replicate_succ', List.append_assoc]
      rfl

/-- A decimal number without decimals is written as any whole number. -/
theorem positional_whole {d : Decimal} (hexp : 0 ≤ d.exponent)
    (hd : 0 < d.digits ∨ d.exponent = 0) :
    String.ofList d.positional = toString d.whole := by
  rw [Nat.toString_eq_ofList_toDigits, Decimal.positional, if_pos hexp, Decimal.whole]
  rcases hd with hpos | hzero
  · rw [toDigits_mul_pow hpos]
  · simp [hzero]

theorem Whole.shortest_digits {x : Binary64} (hx : x.Whole) :
    0 < x.shortest.digits ∨ x.shortest.exponent = 0 := by
  by_cases hzero : x.mantissa = 0
  · rw [shortest_zero hzero]
    exact .inr rfl
  · -- zero is in no other cell
    left
    have hgap : 0 < x.quarterGap := by
      rw [hx.quarterGap]
      exact Nat.two_pow_pos _
    have hfour : 4 * x.quarterGap ≤ 4 * x.mantissa * x.quarterGap :=
      Nat.mul_le_mul_right _ (by omega)
    have hlow : 0 < x.interval.low := by
      rw [hx.interval_low]
      split <;> omega
    have hpos : 0 < 4 * x.shortest.whole := lt_of_lt_of_le hlow hx.shortest_cell.1
    refine Nat.pos_of_ne_zero fun hnone => ?_
    rw [Decimal.whole, hnone, Nat.zero_mul] at hpos
    exact absurd hpos (lt_irrefl _)

/-- **The text of a magnitude is that of the whole number that is shown.** -/
theorem positional_shortest (n : ℕ) :
    String.ofList (ofNat n).shortest.positional = toString (shown n) :=
  positional_whole (ofNat_cell n).1.shortest_exponent (ofNat_cell n).1.shortest_digits

end Binary64

end AccountCensus.Number
