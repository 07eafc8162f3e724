import AccountCensus.Text.Utf8
import Mathlib.Data.List.Forall2

/-!
# Texts and their bytes

The first byte of a character says which ranges the following bytes come from (`Leads`). The bytes
of every character are of this kind (`encode_leads`), and all such bytes are a character
(`exists_encode_of_leads`). So no character is cut at the wrong place (`encode_append_inj`), and
bytes that are no text are a text up to their first fault (`not_text_iff`): a byte that begins no
character, too many bytes for a character, a surrogate, a number above the last character, or a
character that breaks off.
-/

namespace AccountCensus.Text.Utf8

open String (utf8EncodeChar)

/-! ## One character -/

/-- The bytes lie in the ranges, one in each. -/
def Fit : List Range → List UInt8 → Prop := List.Forall₂ fun r b => r.has b = true

/-- A first byte, and the ranges of the bytes that follow it. -/
inductive Leads (first : ℕ) : List Range → Prop
  | one : first < 0x80 → Leads first []
  | two : 0xC2 ≤ first → first < 0xE0 → Leads first [tail]
  | three : 0xE1 ≤ first → first < 0xF0 → first ≠ 0xED → Leads first [tail, tail]
  | threeLow : first = 0xE0 → Leads first [⟨0xA0, 0xBF⟩, tail]
  | threeHigh : first = 0xED → Leads first [⟨0x80, 0x9F⟩, tail]
  | four : 0xF1 ≤ first → first < 0xF4 → Leads first [tail, tail, tail]
  | fourLow : first = 0xF0 → Leads first [⟨0x90, 0xBF⟩, tail, tail]
  | fourHigh : first = 0xF4 → Leads first [⟨0x80, 0x8F⟩, tail, tail]

theorem completion_eq_some_iff {first : UInt8} {ranges : List Range} :
    completion first = some ranges ↔ Leads first.toNat ranges := by
  have hlt : ∀ n : UInt8, (first < n) = (first.toNat < n.toNat) := fun n => by
    rw [UInt8.lt_iff_toNat_lt]
  have heq : ∀ n : UInt8, (first = n) = (first.toNat = n.toNat) := fun n => by
    rw [UInt8.toNat_inj]
  unfold completion
  simp only [hlt, heq, UInt8.reduceToNat]
  constructor
  · intro h
    repeat' split at h
    all_goals cases h
    · exact .one (by assumption)
    · exact .two (by omega) (by omega)
    · exact .threeLow (by omega)
    · exact .threeHigh (by omega)
    · exact .three (by omega) (by omega) (by omega)
    · exact .fourLow (by omega)
    · exact .four (by omega) (by omega)
    · exact .fourHigh (by omega)
  · intro h
    cases h <;> simp (disch := omega) only [if_pos, if_neg]

theorem Range.has_iff {r : Range} {b : UInt8} :
    r.has b = true ↔ r.low.toNat ≤ b.toNat ∧ b.toNat ≤ r.high.toNat := by
  simp [Range.has, UInt8.le_iff_toNat_le]

theorem Range.has_ofNat {r : Range} {n : ℕ} (hlow : r.low.toNat ≤ n) (hhigh : n ≤ r.high.toNat) :
    r.has (UInt8.ofNat n) = true := by
  have hlt := r.high.toNat_lt
  rw [has_iff, UInt8.toNat_ofNat', Nat.mod_eq_of_lt (by omega)]
  exact ⟨hlow, hhigh⟩

theorem tail_has_ofNat (n : ℕ) : tail.has (UInt8.ofNat (n % 0x40 + 0x80)) = true :=
  Range.has_ofNat (show 0x80 ≤ _ by omega) (show _ ≤ 0xBF by omega)

/-- **A character is encoded by a first byte and bytes in the ranges that it leads.** -/
theorem encode_leads (c : Char) : ∃ b bs ranges, utf8EncodeChar c = b :: bs ∧
    Leads b.toNat ranges ∧ Fit ranges bs := by
  have hvalid : c.val.toNat < 0xD800 ∨ 0xDFFF < c.val.toNat ∧ c.val.toNat < 0x110000 := c.valid
  have hlead : ∀ {n : ℕ} {ranges : List Range}, n < 256 → Leads n ranges →
      Leads (UInt8.ofNat n).toNat ranges := fun hn h => by
    rwa [UInt8.toNat_ofNat', Nat.mod_eq_of_lt hn]
  unfold utf8EncodeChar
  dsimp only
  generalize c.val.toNat = v at hvalid ⊢
  have htail := tail_has_ofNat
  split_ifs with h₁ h₂ h₃
  · exact ⟨_, _, [], rfl, hlead (by omega) (.one (by omega)), .nil⟩
  · exact ⟨_, _, [tail], rfl, hlead (by omega) (.two (by omega) (by omega)),
      .cons (htail _) .nil⟩
  · by_cases hlow : v / 4096 = 0
    · exact ⟨_, _, [⟨0xA0, 0xBF⟩, tail], rfl, hlead (by omega) (.threeLow (by omega)),
        .cons (Range.has_ofNat (show 0xA0 ≤ _ by omega) (show _ ≤ 0xBF by omega))
          (.cons (htail _) .nil)⟩
    · by_cases hhigh : v / 4096 = 0xD
      · exact ⟨_, _, [⟨0x80, 0x9F⟩, tail], rfl, hlead (by omega) (.threeHigh (by omega)),
          .cons (Range.has_ofNat (show 0x80 ≤ _ by omega) (show _ ≤ 0x9F by omega))
            (.cons (htail _) .nil)⟩
      · exact ⟨_, _, [tail, tail], rfl,
          hlead (by omega) (.three (by omega) (by omega) (by omega)),
          .cons (htail _) (.cons (htail _) .nil)⟩
  · by_cases hlow : v / 262144 = 0
    · exact ⟨_, _, [⟨0x90, 0xBF⟩, tail, tail], rfl, hlead (by omega) (.fourLow (by omega)),
        .cons (Range.has_ofNat (show 0x90 ≤ _ by omega) (show _ ≤ 0xBF by omega))
          (.cons (htail _) (.cons (htail _) .nil))⟩
    · by_cases hhigh : v / 262144 = 4
      · exact ⟨_, _, [⟨0x80, 0x8F⟩, tail, tail], rfl, hlead (by omega) (.fourHigh (by omega)),
          .cons (Range.has_ofNat (show 0x80 ≤ _ by omega) (show _ ≤ 0x8F by omega))
            (.cons (htail _) (.cons (htail _) .nil))⟩
      · exact ⟨_, _, [tail, tail, tail], rfl, hlead (by omega) (.four (by omega) (by omega)),
          .cons (htail _) (.cons (htail _) (.cons (htail _) .nil))⟩

theorem encodeChar_ne_nil (c : Char) : utf8EncodeChar c ≠ [] := by
  obtain ⟨b, bs, -, hc, -⟩ := encode_leads c
  rw [hc]
  exact List.cons_ne_nil b bs

theorem ofNat_eq {b : UInt8} {n : ℕ} (h : n = b.toNat) : UInt8.ofNat n = b := by
  rw [h, UInt8.ofNat_toNat]

theorem exists_encode {v : ℕ} (hv : v.isValidChar) {bytes : List UInt8}
    (h : ∀ c : Char, c.val.toNat = v → utf8EncodeChar c = bytes) :
    ∃ c, utf8EncodeChar c = bytes :=
  ⟨Char.ofNatAux v hv, h _ rfl⟩

section Bytes

variable {b x y z : UInt8}

theorem exists_encode_one (hb : b.toNat < 0x80) : ∃ c, utf8EncodeChar c = [b] := by
  refine exists_encode (v := b.toNat) (.inl (by omega)) fun c hc => ?_
  unfold utf8EncodeChar
  dsimp only
  rw [hc, if_pos (by omega), ofNat_eq rfl]

theorem exists_encode_two (hb : 0xC2 ≤ b.toNat ∧ b.toNat < 0xE0)
    (hx : 0x80 ≤ x.toNat ∧ x.toNat ≤ 0xBF) : ∃ c, utf8EncodeChar c = [b, x] := by
  refine exists_encode (v := b.toNat % 0x20 * 64 + x.toNat % 0x40) (.inl (by omega)) fun c hc => ?_
  unfold utf8EncodeChar
  dsimp only
  rw [hc, if_neg (by omega), if_pos (by omega), ofNat_eq (b := b) (by omega),
    ofNat_eq (b := x) (by omega)]

/-- The bytes are neither too many for their character nor do they encode a surrogate. -/
theorem exists_encode_three (hb : 0xE0 ≤ b.toNat ∧ b.toNat < 0xF0)
    (hx : 0x80 ≤ x.toNat ∧ x.toNat ≤ 0xBF) (hy : 0x80 ≤ y.toNat ∧ y.toNat ≤ 0xBF)
    (hlow : b.toNat = 0xE0 → 0xA0 ≤ x.toNat) (hhigh : b.toNat = 0xED → x.toNat ≤ 0x9F) :
    ∃ c, utf8EncodeChar c = [b, x, y] := by
  refine exists_encode (v := b.toNat % 0x10 * 4096 + x.toNat % 0x40 * 64 + y.toNat % 0x40) ?_
    fun c hc => ?_
  · unfold Nat.isValidChar
    omega
  · unfold utf8EncodeChar
    dsimp only
    rw [hc, if_neg (by omega), if_neg (by omega), if_pos (by omega), ofNat_eq (b := b) (by omega),
      ofNat_eq (b := x) (by omega), ofNat_eq (b := y) (by omega)]

/-- The bytes are neither too many for their character nor is it out of range. -/
theorem exists_encode_four (hb : 0xF0 ≤ b.toNat ∧ b.toNat ≤ 0xF4)
    (hx : 0x80 ≤ x.toNat ∧ x.toNat ≤ 0xBF) (hy : 0x80 ≤ y.toNat ∧ y.toNat ≤ 0xBF)
    (hz : 0x80 ≤ z.toNat ∧ z.toNat ≤ 0xBF)
    (hlow : b.toNat = 0xF0 → 0x90 ≤ x.toNat) (hhigh : b.toNat = 0xF4 → x.toNat ≤ 0x8F) :
    ∃ c, utf8EncodeChar c = [b, x, y, z] := by
  refine exists_encode (v := b.toNat % 0x08 * 262144 + x.toNat % 0x40 * 4096 +
    y.toNat % 0x40 * 64 + z.toNat % 0x40) (.inr (by omega)) fun c hc => ?_
  unfold utf8EncodeChar
  dsimp only
  rw [hc, if_neg (by omega), if_neg (by omega), if_neg (by omega), ofNat_eq (b := b) (by omega),
    ofNat_eq (b := x) (by omega), ofNat_eq (b := y) (by omega), ofNat_eq (b := z) (by omega)]

end Bytes

/-- **Every first byte with bytes in the ranges that it leads encodes a character.** -/
theorem exists_encode_of_leads {b : UInt8} {bs : List UInt8} {ranges : List Range}
    (hlead : Leads b.toNat ranges) (hfit : Fit ranges bs) :
    ∃ c, utf8EncodeChar c = b :: bs := by
  cases hlead with
  | one h =>
      cases hfit
      exact exists_encode_one h
  | two h h' =>
      obtain _ | ⟨hx, _ | _⟩ := hfit
      exact exists_encode_two ⟨h, h'⟩ (Range.has_iff.mp hx)
  | three h h' hne =>
      obtain _ | ⟨hx, _ | ⟨hy, _ | _⟩⟩ := hfit
      exact exists_encode_three (by omega) (Range.has_iff.mp hx) (Range.has_iff.mp hy)
        (by omega) (by omega)
  | threeLow h =>
      obtain _ | @⟨_, x, _, _, hx, _ | ⟨hy, _ | _⟩⟩ := hfit
      have hx : 0xA0 ≤ x.toNat ∧ x.toNat ≤ 0xBF := Range.has_iff.mp hx
      exact exists_encode_three (by omega) (by omega) (Range.has_iff.mp hy) (by omega) (by omega)
  | threeHigh h =>
      obtain _ | @⟨_, x, _, _, hx, _ | ⟨hy, _ | _⟩⟩ := hfit
      have hx : 0x80 ≤ x.toNat ∧ x.toNat ≤ 0x9F := Range.has_iff.mp hx
      exact exists_encode_three (by omega) (by omega) (Range.has_iff.mp hy) (by omega) (by omega)
  | four h h' =>
      obtain _ | ⟨hx, _ | ⟨hy, _ | ⟨hz, _ | _⟩⟩⟩ := hfit
      exact exists_encode_four (by omega) (Range.has_iff.mp hx) (Range.has_iff.mp hy)
        (Range.has_iff.mp hz) (by omega) (by omega)
  | fourLow h =>
      obtain _ | @⟨_, x, _, _, hx, _ | ⟨hy, _ | ⟨hz, _ | _⟩⟩⟩ := hfit
      have hx : 0x90 ≤ x.toNat ∧ x.toNat ≤ 0xBF := Range.has_iff.mp hx
      exact exists_encode_four (by omega) (by omega) (Range.has_iff.mp hy)
        (Range.has_iff.mp hz) (by omega) (by omega)
  | fourHigh h =>
      obtain _ | @⟨_, x, _, _, hx, _ | ⟨hy, _ | ⟨hz, _ | _⟩⟩⟩ := hfit
      have hx : 0x80 ≤ x.toNat ∧ x.toNat ≤ 0x8F := Range.has_iff.mp hx
      exact exists_encode_four (by omega) (by omega) (Range.has_iff.mp hy)
        (Range.has_iff.mp hz) (by omega) (by omega)

/-! ## Where characters end -/

theorem Leads.unique {first : UInt8} {ranges ranges' : List Range}
    (h : Leads first.toNat ranges) (h' : Leads first.toNat ranges') : ranges = ranges' :=
  Option.some.inj ((completion_eq_some_iff.mpr h).symm.trans (completion_eq_some_iff.mpr h'))

/-- No range that is led is empty, and all lie within `tail`. -/
theorem Leads.within {first : ℕ} {ranges : List Range} (h : Leads first ranges) {r : Range}
    (hr : r ∈ ranges) : r.has r.low = true ∧ ∀ b, r.has b = true → tail.has b = true := by
  have hcases : r = tail ∨ r = ⟨0xA0, 0xBF⟩ ∨ r = ⟨0x80, 0x9F⟩ ∨ r = ⟨0x90, 0xBF⟩ ∨
      r = ⟨0x80, 0x8F⟩ := by
    cases h <;> simp only [List.mem_cons, List.not_mem_nil, or_false] at hr <;> tauto
  have hbounds : r.low.toNat ≤ r.high.toNat ∧ tail.low.toNat ≤ r.low.toNat ∧
      r.high.toNat ≤ tail.high.toNat := by
    rcases hcases with rfl | rfl | rfl | rfl | rfl <;> decide
  simp only [Range.has_iff]
  exact ⟨⟨Nat.le_refl _, hbounds.1⟩,
    fun b hb => ⟨Nat.le_trans hbounds.2.1 hb.1, Nat.le_trans hb.2 hbounds.2.2⟩⟩

/-- All bytes of a character but the first continue it. -/
theorem Leads.continues {first : ℕ} {ranges : List Range} {bs : List UInt8}
    (h : Leads first ranges) (hfit : Fit ranges bs) : ∀ x ∈ bs, tail.has x = true := by
  have hwithin : ∀ r ∈ ranges, ∀ b, r.has b = true → tail.has b = true :=
    fun r hr => (h.within hr).2
  clear h
  induction hfit with
  | nil => exact fun x hx => nomatch hx
  | @cons r b ranges bs hb _ ih =>
      intro x hx
      rcases List.mem_cons.mp hx with rfl | hx
      · exact hwithin r List.mem_cons_self x hb
      · exact ih (fun r' hr' => hwithin r' (List.mem_cons_of_mem r hr')) x hx

/-- Only the range of a second byte can be narrower than `tail`. -/
theorem Leads.narrow {first : ℕ} {ranges read lacking : List Range} {r : Range}
    (h : Leads first ranges) (hranges : ranges = read ++ r :: lacking) (hne : r ≠ tail) :
    read = [] ∧ (first = 0xE0 ∧ r = ⟨0xA0, 0xBF⟩ ∨ first = 0xED ∧ r = ⟨0x80, 0x9F⟩ ∨
      first = 0xF0 ∧ r = ⟨0x90, 0xBF⟩ ∨ first = 0xF4 ∧ r = ⟨0x80, 0x8F⟩) := by
  have hrest : ∀ r' ∈ ranges.tail, r' = tail := by
    cases h <;> simp
  cases read with
  | cons r' read =>
      refine absurd (hrest r ?_) hne
      rw [hranges]
      exact List.mem_append_right _ List.mem_cons_self
  | nil =>
      refine ⟨rfl, ?_⟩
      have hfirst : ∀ {r' : Range} {rs : List Range}, r' :: rs = [] ++ r :: lacking → r = r' :=
        fun h => (List.cons_eq_cons.mp h).1.symm
      cases h with
      | one _ => cases hranges
      | two _ _ | three _ _ _ | four _ _ => exact absurd (hfirst hranges) hne
      | threeLow hb => exact .inl ⟨hb, hfirst hranges⟩
      | threeHigh hb => exact .inr (.inl ⟨hb, hfirst hranges⟩)
      | fourLow hb => exact .inr (.inr (.inl ⟨hb, hfirst hranges⟩))
      | fourHigh hb => exact .inr (.inr (.inr ⟨hb, hfirst hranges⟩))

/-- **Characters do not run into each other.** -/
theorem encode_append_inj {c d : Char} {rest rest' : List UInt8}
    (h : utf8EncodeChar c ++ rest = utf8EncodeChar d ++ rest') :
    utf8EncodeChar c = utf8EncodeChar d ∧ rest = rest' := by
  obtain ⟨b, bs, ranges, hc, hlead, hfit⟩ := encode_leads c
  obtain ⟨b', bs', ranges', hd, hlead', hfit'⟩ := encode_leads d
  rw [hc, hd, List.cons_append, List.cons_append, List.cons_eq_cons] at h
  obtain ⟨rfl, hrest⟩ := h
  obtain rfl := hlead.unique hlead'
  obtain ⟨rfl, rfl⟩ := List.append_inj hrest (hfit.length_eq.symm.trans hfit'.length_eq)
  exact ⟨hc.trans hd.symm, rfl⟩

/-! ## Faults -/

/-- Bytes that begin with a fault. -/
inductive Malformed : List UInt8 → Prop
  /-- A byte that only continues characters. -/
  | stray {b : UInt8} {rest : List UInt8} : tail.has b = true → Malformed (b :: rest)
  /-- Two bytes for a character below U+0080. -/
  | overlongTwo {b : UInt8} {rest : List UInt8} : b = 0xC0 ∨ b = 0xC1 → Malformed (b :: rest)
  /-- Three bytes for a character below U+0800. -/
  | overlongThree {x : UInt8} {rest : List UInt8} : (⟨0x80, 0x9F⟩ : Range).has x = true →
      Malformed (0xE0 :: x :: rest)
  /-- Four bytes for a character below U+10000. -/
  | overlongFour {x : UInt8} {rest : List UInt8} : (⟨0x80, 0x8F⟩ : Range).has x = true →
      Malformed (0xF0 :: x :: rest)
  /-- A surrogate, U+D800 to U+DFFF. -/
  | surrogate {x : UInt8} {rest : List UInt8} : (⟨0xA0, 0xBF⟩ : Range).has x = true →
      Malformed (0xED :: x :: rest)
  /-- A number above U+10FFFF. -/
  | above {x : UInt8} {rest : List UInt8} : (⟨0x90, 0xBF⟩ : Range).has x = true →
      Malformed (0xF4 :: x :: rest)
  /-- A byte that could begin such numbers only. -/
  | farAbove {b : UInt8} {rest : List UInt8} : 0xF5 ≤ b → Malformed (b :: rest)
  /-- A character that breaks off: behind some of its bytes nothing continues it. -/
  | truncated {c : Char} {front back rest : List UInt8} : utf8EncodeChar c = front ++ back →
      front ≠ [] → back ≠ [] → (∀ b, rest.head? = some b → tail.has b = false) →
      Malformed (front ++ rest)

theorem Malformed.ne_nil {bytes : List UInt8} (h : Malformed bytes) : bytes ≠ [] := by
  cases h with
  | truncated _ hfront _ _ => exact fun h => hfront (List.append_eq_nil_iff.mp h).1
  | _ => exact List.cons_ne_nil _ _

/-- A byte that leads no ranges begins a fault. -/
theorem malformed_of_completion {b : UInt8} (h : completion b = none) (rest : List UInt8) :
    Malformed (b :: rest) := by
  have hnone : ∀ ranges, ¬ Leads b.toNat ranges := fun ranges hlead => by
    rw [completion_eq_some_iff.mpr hlead] at h
    cases h
  have hb : 0x80 ≤ b.toNat ∧ b.toNat ≤ 0xBF ∨ b.toNat = 0xC0 ∨ b.toNat = 0xC1 ∨
      0xF5 ≤ b.toNat := by
    have h₁ : ¬ b.toNat < 0x80 := fun hb => hnone _ (.one hb)
    have h₂ : ¬ (0xC2 ≤ b.toNat ∧ b.toNat < 0xE0) := fun hb => hnone _ (.two hb.1 hb.2)
    have h₃ : ¬ (0xE1 ≤ b.toNat ∧ b.toNat < 0xF0 ∧ b.toNat ≠ 0xED) :=
      fun hb => hnone _ (.three hb.1 hb.2.1 hb.2.2)
    have h₄ : b.toNat ≠ 0xE0 := fun hb => hnone _ (.threeLow hb)
    have h₅ : b.toNat ≠ 0xED := fun hb => hnone _ (.threeHigh hb)
    have h₆ : ¬ (0xF1 ≤ b.toNat ∧ b.toNat < 0xF4) := fun hb => hnone _ (.four hb.1 hb.2)
    have h₇ : b.toNat ≠ 0xF0 := fun hb => hnone _ (.fourLow hb)
    have h₈ : b.toNat ≠ 0xF4 := fun hb => hnone _ (.fourHigh hb)
    omega
  rcases hb with hb | hb | hb | hb
  · exact .stray (Range.has_iff.mpr hb)
  · exact .overlongTwo (.inl (UInt8.toNat_inj.mp hb))
  · exact .overlongTwo (.inr (UInt8.toNat_inj.mp hb))
  · exact .farAbove (UInt8.le_iff_toNat_le.mpr hb)

/-- Bytes are read into ranges until one does not lie in its range, or there are no more. -/
theorem fit_or_stuck (ranges : List Range) (bytes : List UInt8) :
    (∃ bs rest, bytes = bs ++ rest ∧ Fit ranges bs) ∨
    ∃ read r lacking front rest, ranges = read ++ r :: lacking ∧ bytes = front ++ rest ∧
      Fit read front ∧ ∀ b, rest.head? = some b → r.has b = false := by
  induction ranges generalizing bytes with
  | nil => exact .inl ⟨[], bytes, rfl, .nil⟩
  | cons r ranges ih =>
      cases bytes with
      | nil => exact .inr ⟨[], r, ranges, [], [], rfl, rfl, .nil, nofun⟩
      | cons b bytes =>
          by_cases hb : r.has b = true
          · rcases ih bytes with ⟨bs, rest, rfl, hfit⟩ |
              ⟨read, r', lacking, front, rest, rfl, rfl, hfit, hstuck⟩
            · exact .inl ⟨b :: bs, rest, rfl, .cons hb hfit⟩
            · exact .inr ⟨r :: read, r', lacking, b :: front, rest, rfl, rfl, .cons hb hfit,
                hstuck⟩
          · refine .inr ⟨[], r, ranges, [], b :: bytes, rfl, rfl, .nil, ?_⟩
            intro b' hb'
            obtain rfl := Option.some.inj hb'
            exact Bool.eq_false_iff.mpr hb

/-- A continuing byte outside of the range that it should come from makes a fault. -/
theorem malformed_of_narrow {b x : UInt8} {ranges read lacking : List Range} {r : Range}
    (hlead : Leads b.toNat ranges) (hranges : ranges = read ++ r :: lacking)
    (hx : tail.has x = true) (hout : r.has x = false) (rest : List UInt8) :
    read = [] ∧ Malformed (b :: x :: rest) := by
  have hne : r ≠ tail := fun h => by
    rw [h, hx] at hout
    cases hout
  obtain ⟨hread, hcases⟩ := hlead.narrow hranges hne
  refine ⟨hread, ?_⟩
  rw [← Bool.not_eq_true, Range.has_iff] at hout
  have hx : 0x80 ≤ x.toNat ∧ x.toNat ≤ 0xBF := Range.has_iff.mp hx
  rcases hcases with ⟨hb, rfl⟩ | ⟨hb, rfl⟩ | ⟨hb, rfl⟩ | ⟨hb, rfl⟩
  · obtain rfl : b = 0xE0 := UInt8.toNat_inj.mp hb
    replace hout : ¬ (0xA0 ≤ x.toNat ∧ x.toNat ≤ 0xBF) := hout
    exact .overlongThree (Range.has_iff.mpr (show 0x80 ≤ x.toNat ∧ x.toNat ≤ 0x9F by omega))
  · obtain rfl : b = 0xED := UInt8.toNat_inj.mp hb
    replace hout : ¬ (0x80 ≤ x.toNat ∧ x.toNat ≤ 0x9F) := hout
    exact .surrogate (Range.has_iff.mpr (show 0xA0 ≤ x.toNat ∧ x.toNat ≤ 0xBF by omega))
  · obtain rfl : b = 0xF0 := UInt8.toNat_inj.mp hb
    replace hout : ¬ (0x90 ≤ x.toNat ∧ x.toNat ≤ 0xBF) := hout
    exact .overlongFour (Range.has_iff.mpr (show 0x80 ≤ x.toNat ∧ x.toNat ≤ 0x8F by omega))
  · obtain rfl : b = 0xF4 := UInt8.toNat_inj.mp hb
    replace hout : ¬ (0x80 ≤ x.toNat ∧ x.toNat ≤ 0x8F) := hout
    exact .above (Range.has_iff.mpr (show 0x90 ≤ x.toNat ∧ x.toNat ≤ 0xBF by omega))

/-- **Bytes that begin with no character begin with a fault.** -/
theorem malformed_of_not_begins {bytes : List UInt8} (hne : bytes ≠ [])
    (h : ∀ c rest, bytes ≠ utf8EncodeChar c ++ rest) : Malformed bytes := by
  obtain ⟨b, more, rfl⟩ := List.exists_cons_of_ne_nil hne
  cases hranges : completion b with
  | none => exact malformed_of_completion hranges more
  | some ranges =>
      have hlead := completion_eq_some_iff.mp hranges
      rcases fit_or_stuck ranges more with ⟨bs, rest, rfl, hfit⟩ |
        ⟨read, r, lacking, front, rest, hsplit, rfl, hfit, hstuck⟩
      · obtain ⟨c, hc⟩ := exists_encode_of_leads hlead hfit
        exact absurd (by rw [hc, List.cons_append]) (h c rest)
      · by_cases hnext : ∃ x, rest.head? = some x ∧ tail.has x = true
        · obtain ⟨x, hx, htail⟩ := hnext
          obtain ⟨rest, rfl⟩ := List.head?_eq_some_iff.mp hx
          obtain ⟨rfl, hfault⟩ := malformed_of_narrow hlead hsplit htail (hstuck x rfl) rest
          cases hfit
          exact hfault
        · -- the least bytes of the ranges that are lacking would have completed a character
          have hback : Fit (r :: lacking) ((r :: lacking).map Range.low) := by
            refine List.forall₂_map_right_iff.mpr (List.forall₂_same.mpr fun r' hr' => ?_)
            exact (hlead.within (hsplit ▸ List.mem_append_right _ hr')).1
          obtain ⟨c, hc⟩ := exists_encode_of_leads (hsplit ▸ hlead) (List.rel_append hfit hback)
          have hcut : utf8EncodeChar c = (b :: front) ++ (r :: lacking).map Range.low := hc
          refine .truncated hcut (List.cons_ne_nil _ _) (by simp) ?_
          intro x hx
          exact Bool.eq_false_iff.mpr fun htail => hnext ⟨x, hx, htail⟩

/-- The second byte of a character lies in the first range. -/
theorem Leads.second {first x : UInt8} {ranges rs : List Range} {r : Range}
    {bs rest rest' : List UInt8} (h : Leads first.toNat (r :: rs))
    (hlead : Leads first.toNat ranges) (hfit : Fit ranges bs) (hmore : x :: rest = bs ++ rest') :
    r.has x = true := by
  obtain rfl := h.unique hlead
  cases hfit with
  | cons hx _ =>
      obtain ⟨rfl, -⟩ := List.cons_eq_cons.mp hmore
      exact hx

/-- What no byte continues cannot be continued to a character. -/
theorem not_begins_of_truncated {c c' : Char} {front back rest rest' : List UInt8}
    (hc : utf8EncodeChar c = front ++ back) (hfront : front ≠ []) (hback : back ≠ [])
    (hnext : ∀ b, rest.head? = some b → tail.has b = false) :
    front ++ rest ≠ utf8EncodeChar c' ++ rest' := by
  intro hbytes
  obtain ⟨b, front, rfl⟩ := List.exists_cons_of_ne_nil hfront
  obtain ⟨b₁, bs₁, ranges₁, hc₁, hlead₁, hfit₁⟩ := encode_leads c
  obtain ⟨b₂, bs₂, ranges₂, hc₂, hlead₂, hfit₂⟩ := encode_leads c'
  obtain ⟨rfl, rfl⟩ := List.cons_eq_cons.mp (hc₁.symm.trans hc)
  rw [hc₂] at hbytes
  obtain ⟨rfl, hmore⟩ := List.cons_eq_cons.mp hbytes
  obtain rfl := hlead₁.unique hlead₂
  have hlength : bs₂.length = front.length + back.length :=
    hfit₂.length_eq.symm.trans (hfit₁.length_eq.trans List.length_append)
  have hback := List.length_pos_iff.mpr hback
  rcases List.append_eq_append_iff.mp hmore with ⟨more, rfl, rfl⟩ | ⟨more, rfl, -⟩
  · -- the next byte belongs to the second character, and continues it
    cases more with
    | nil =>
        rw [List.append_nil] at hlength
        omega
    | cons x more =>
        have hx := hlead₂.continues hfit₂ x (List.mem_append_right _ List.mem_cons_self)
        rw [hnext x rfl] at hx
        cases hx
  · rw [List.length_append] at hlength
    omega

/-- **Bytes that begin with a fault begin with no character.** -/
theorem Malformed.not_begins {bytes : List UInt8} (h : Malformed bytes) (c : Char)
    (rest : List UInt8) : bytes ≠ utf8EncodeChar c ++ rest := by
  obtain ⟨b, bs, ranges, hc, hlead, hfit⟩ := encode_leads c
  rw [hc, List.cons_append]
  intro hbytes
  cases h with
  | @stray b' _ hb =>
      obtain ⟨rfl, -⟩ := List.cons_eq_cons.mp hbytes
      have hb : 0x80 ≤ b'.toNat ∧ b'.toNat ≤ 0xBF := Range.has_iff.mp hb
      cases hlead <;> omega
  | @overlongTwo b' _ hb =>
      obtain ⟨rfl, -⟩ := List.cons_eq_cons.mp hbytes
      have hb : b'.toNat = 0xC0 ∨ b'.toNat = 0xC1 := hb.imp (congrArg _) (congrArg _)
      cases hlead <;> omega
  | @farAbove b' _ hb =>
      obtain ⟨rfl, -⟩ := List.cons_eq_cons.mp hbytes
      have hb : 0xF5 ≤ b'.toNat := UInt8.le_iff_toNat_le.mp hb
      cases hlead <;> omega
  | @overlongThree x _ hx =>
      obtain ⟨rfl, hmore⟩ := List.cons_eq_cons.mp hbytes
      have hin : 0xA0 ≤ x.toNat ∧ x.toNat ≤ 0xBF :=
        Range.has_iff.mp (Leads.second (.threeLow rfl) hlead hfit hmore)
      have hx : 0x80 ≤ x.toNat ∧ x.toNat ≤ 0x9F := Range.has_iff.mp hx
      omega
  | @overlongFour x _ hx =>
      obtain ⟨rfl, hmore⟩ := List.cons_eq_cons.mp hbytes
      have hin : 0x90 ≤ x.toNat ∧ x.toNat ≤ 0xBF :=
        Range.has_iff.mp (Leads.second (.fourLow rfl) hlead hfit hmore)
      have hx : 0x80 ≤ x.toNat ∧ x.toNat ≤ 0x8F := Range.has_iff.mp hx
      omega
  | @surrogate x _ hx =>
      obtain ⟨rfl, hmore⟩ := List.cons_eq_cons.mp hbytes
      have hin : 0x80 ≤ x.toNat ∧ x.toNat ≤ 0x9F :=
        Range.has_iff.mp (Leads.second (.threeHigh rfl) hlead hfit hmore)
      have hx : 0xA0 ≤ x.toNat ∧ x.toNat ≤ 0xBF := Range.has_iff.mp hx
      omega
  | @above x _ hx =>
      obtain ⟨rfl, hmore⟩ := List.cons_eq_cons.mp hbytes
      have hin : 0x80 ≤ x.toNat ∧ x.toNat ≤ 0x8F :=
        Range.has_iff.mp (Leads.second (.fourHigh rfl) hlead hfit hmore)
      have hx : 0x90 ≤ x.toNat ∧ x.toNat ≤ 0xBF := Range.has_iff.mp hx
      omega
  | truncated hcut hfront hback hnext =>
      exact not_begins_of_truncated hcut hfront hback hnext
        (hbytes.trans (by rw [hc, List.cons_append]))

/-! ## Texts -/

/-- The bytes of characters. -/
def encode (cs : List Char) : List UInt8 := cs.flatMap utf8EncodeChar

theorem encode_cons (c : Char) (cs : List Char) :
    encode (c :: cs) = utf8EncodeChar c ++ encode cs := List.flatMap_cons

/-- **Bytes that are no text are a text up to a fault**, and the other way round. -/
theorem not_exists_encode_iff {bytes : List UInt8} :
    (∀ cs, encode cs ≠ bytes) ↔ ∃ cs rest, bytes = encode cs ++ rest ∧ Malformed rest := by
  constructor
  · intro h
    induction hlength : bytes.length using Nat.strongRecOn generalizing bytes with
    | ind n ih =>
        by_cases hbegins : ∃ c rest, bytes = utf8EncodeChar c ++ rest
        · obtain ⟨c, rest, rfl⟩ := hbegins
          have hrest : ∀ cs, encode cs ≠ rest := by
            rintro cs rfl
            exact h (c :: cs) (encode_cons c cs)
          have hlt : rest.length < n := by
            have hpos := c.utf8Size_pos
            rw [List.length_append, String.length_utf8EncodeChar] at hlength
            omega
          obtain ⟨cs, fault, rfl, hfault⟩ := ih _ hlt hrest rfl
          refine ⟨c :: cs, fault, ?_, hfault⟩
          rw [encode_cons, List.append_assoc]
        · refine ⟨[], bytes, rfl, malformed_of_not_begins (Ne.symm (h [])) ?_⟩
          exact fun c rest hbytes => hbegins ⟨c, rest, hbytes⟩
  · rintro ⟨cs, rest, rfl, hfault⟩ ds hds
    induction cs generalizing ds with
    | nil =>
        cases ds with
        | nil => exact hfault.ne_nil hds.symm
        | cons d ds => exact hfault.not_begins d (encode ds) hds.symm
    | cons c cs ih =>
        rw [encode_cons, List.append_assoc] at hds
        cases ds with
        | nil => exact encodeChar_ne_nil c (List.append_eq_nil_iff.mp hds.symm).1
        | cons d ds => exact ih ds (encode_append_inj hds).2

theorem toUTF8_ofList (cs : List Char) : (String.ofList cs).toUTF8 = (encode cs).toByteArray :=
  String.toUTF8_eq_toByteArray

/-- A text is read back from its bytes. -/
theorem decode_toUTF8 (s : String) : decode s.toUTF8 = .ok s :=
  dif_pos s.isValidUTF8

/-- What is no text is not read as one. -/
theorem exists_decode_eq_error {bytes : ByteArray} (h : ∀ text : String, text.toUTF8 ≠ bytes) :
    ∃ fault, decode bytes = .error fault :=
  ⟨_, dif_neg fun hvalid => h (String.fromUTF8 bytes hvalid) String.toUTF8_eq_toByteArray⟩

/-- **Bytes that are no text have a fault in some place**, behind a text. -/
theorem not_text_iff {bytes : ByteArray} :
    (∀ text : String, text.toUTF8 ≠ bytes) ↔ ∃ (before : String) (rest : List UInt8),
      bytes = before.toUTF8 ++ rest.toByteArray ∧ Malformed rest := by
  obtain ⟨bs, rfl⟩ : ∃ bs : List UInt8, bytes = bs.toByteArray :=
    ⟨bytes.data.toList, ByteArray.ext (by rw [List.data_toByteArray])⟩
  have htext : (∀ text : String, text.toUTF8 ≠ bs.toByteArray) ↔ ∀ cs, encode cs ≠ bs := by
    constructor
    · rintro h cs rfl
      exact h (String.ofList cs) (toUTF8_ofList cs)
    · intro h text htext
      rw [← String.ofList_toList (s := text), toUTF8_ofList, List.toByteArray_inj] at htext
      exact h text.toList htext
  rw [htext, not_exists_encode_iff]
  constructor
  · rintro ⟨cs, rest, rfl, hfault⟩
    exact ⟨String.ofList cs, rest, by rw [toUTF8_ofList, List.toByteArray_append], hfault⟩
  · rintro ⟨before, rest, hbytes, hfault⟩
    rw [← String.ofList_toList (s := before), toUTF8_ofList, ← List.toByteArray_append,
      List.toByteArray_inj] at hbytes
    exact ⟨before.toList, rest, hbytes, hfault⟩

end AccountCensus.Text.Utf8
