import AccountCensus.Proofs.Deadlines
import AccountCensus.Proofs.OnDemand
import Mathlib.Data.List.TakeWhile
import Mathlib.Data.Rat.Cast.Order
import Mathlib.Tactic.Positivity

/-!
# Durations read back from their texts

The text of a duration is a decimal number and a unit, and their product is the duration itself,
not a rounded one (`tells_text`). A number that is cut at its last digit other than zero is still
the same number, and the zeros in front of a fraction keep its digits in their places
(`isDecimal_decimal`). A text tells one duration at most, since it has one place at most where its
number ends and its unit begins (`Tells.unique`). So a census that ran into its time-out says in
its error which time-out that was.
-/

namespace AccountCensus

namespace Duration

/-! ## Decimal numbers -/

/-- The number that digits stand for. -/
abbrev digitsValue (ds : List Char) : ℕ := Nat.ofDigitChars 10 ds 0

/-- A decimal number as it is written at its shortest: no zeros stand in front of the whole part,
and behind a point there is a fraction that does not end with a zero. -/
inductive IsDecimal : List Char → ℚ → Prop
  | whole (n : ℕ) : IsDecimal (Nat.toDigits 10 n) n
  | fraction (n : ℕ) (ds : List Char) {last : Char} : (∀ c ∈ ds ++ [last], c.isDigit) →
      last ≠ '0' → IsDecimal (Nat.toDigits 10 n ++ '.' :: (ds ++ [last]))
        (n + digitsValue (ds ++ [last]) / 10 ^ (ds ++ [last]).length)

theorem isDigit_of_mem_toDigits {n : ℕ} {c : Char} (h : c ∈ Nat.toDigits 10 n) : c.isDigit :=
  Nat.isDigit_of_mem_toDigits (by decide) (by decide) h

/-- A character of a decimal number. -/
def isNumeric (c : Char) : Bool := c.isDigit || c == '.'

theorem IsDecimal.isNumeric {number : List Char} {q : ℚ} (h : IsDecimal number q) :
    ∀ c ∈ number, isNumeric c := by
  intro c hc
  unfold Duration.isNumeric
  cases h with
  | whole n => rw [isDigit_of_mem_toDigits hc, Bool.true_or]
  | fraction n ds hdigits _ =>
      rcases List.mem_append.mp hc with hc | hc
      · rw [isDigit_of_mem_toDigits hc, Bool.true_or]
      · rcases List.mem_cons.mp hc with rfl | hc
        · rfl
        · rw [hdigits c hc, Bool.true_or]

theorem point_not_mem_toDigits (n : ℕ) : '.' ∉ Nat.toDigits 10 n := by
  intro h
  have hdigit := isDigit_of_mem_toDigits h
  simp at hdigit

/-- **A decimal number is one number.** -/
theorem IsDecimal.unique {number : List Char} {q q' : ℚ} (h : IsDecimal number q)
    (h' : IsDecimal number q') : q = q' := by
  have hpoint : '.'.isDigit = false := by decide
  generalize hnumber : number = number' at h'
  cases h with
  | whole n =>
      cases h' with
      | whole n' =>
          rw [← Nat.ofDigitChars_ten_toDigits (n := n), hnumber, Nat.ofDigitChars_ten_toDigits]
      | fraction n' ds' hdigits' _ =>
          refine absurd ?_ (point_not_mem_toDigits n)
          rw [hnumber]
          simp
  | fraction n ds hdigits _ =>
      cases h' with
      | whole n' =>
          refine absurd ?_ (point_not_mem_toDigits n')
          rw [← hnumber]
          simp
      | fraction n' ds' hdigits' _ =>
          obtain ⟨rfl, hrest⟩ := digits_append_inj hpoint hpoint hnumber
          rw [(List.cons_eq_cons.mp hrest).2]

/-! ## Digits -/

/-- Only zeros are dropped. -/
theorem exists_trimZeros (ds : List Char) :
    ∃ k, ds = trimZeros ds ++ List.replicate k '0' := by
  refine ⟨(ds.reverse.takeWhile (· == '0')).length, ?_⟩
  have hzeros : ds.reverse.takeWhile (· == '0') =
      List.replicate (ds.reverse.takeWhile (· == '0')).length '0' :=
    List.eq_replicate_of_mem fun c hc => by simpa using List.mem_takeWhile_imp hc
  have hsplit := congrArg List.reverse
    (List.takeWhile_append_dropWhile (p := (· == '0')) (l := ds.reverse))
  rw [List.reverse_append, List.reverse_reverse, hzeros, List.reverse_replicate] at hsplit
  exact hsplit.symm

/-- No zero is left at the end. -/
theorem last_trimZeros {ds front : List Char} {last : Char}
    (h : trimZeros ds = front ++ [last]) : last ≠ '0' := by
  have hreverse : ds.reverse.dropWhile (· == '0') = last :: front.reverse := by
    have hlast := congrArg List.reverse h
    rw [trimZeros, List.reverse_reverse, List.reverse_append] at hlast
    exact hlast
  have hhead := List.head?_dropWhile_not (· == '0') ds.reverse
  rw [hreverse] at hhead
  simpa using hhead

theorem digitsValue_paddedDigits (width n : ℕ) : digitsValue (paddedDigits width n) = n := by
  rw [digitsValue, paddedDigits, Nat.ofDigitChars_append, Nat.ofDigitChars_replicate_zero,
    Nat.mul_zero, Nat.ofDigitChars_ten_toDigits]

theorem length_paddedDigits {width n : ℕ} (hwidth : 0 < width) (hn : n < 10 ^ width) :
    (paddedDigits width n).length = width := by
  have hle := (Nat.length_toDigits_le_iff (b := 10) (by decide) hwidth).mpr hn
  rw [paddedDigits, List.length_append, List.length_replicate]
  omega

theorem isDigit_of_mem_paddedDigits {width n : ℕ} {c : Char} (h : c ∈ paddedDigits width n) :
    c.isDigit := by
  rcases List.mem_append.mp h with h | h
  · rw [List.eq_of_mem_replicate h]
    rfl
  · exact isDigit_of_mem_toDigits h

/-- The digits that are kept of a fraction. -/
def fractionDigits (places rest : ℕ) : List Char := trimZeros (paddedDigits places rest)

theorem isDigit_of_mem_fractionDigits {places rest : ℕ} {c : Char}
    (h : c ∈ fractionDigits places rest) : c.isDigit := by
  obtain ⟨k, hk⟩ := exists_trimZeros (paddedDigits places rest)
  have hc : c ∈ paddedDigits places rest := by
    rw [hk]
    exact List.mem_append_left _ h
  exact isDigit_of_mem_paddedDigits hc

/-- The digits that are kept are worth what all of them are. -/
theorem fractionDigits_value {places rest : ℕ} (hrest : rest < 10 ^ places) :
    (digitsValue (fractionDigits places rest) : ℚ) / 10 ^ (fractionDigits places rest).length =
      rest / 10 ^ places := by
  rcases Nat.eq_zero_or_pos places with rfl | hplaces
  · obtain rfl : rest = 0 := by omega
    have hnone : fractionDigits 0 0 = [] := rfl
    rw [hnone]
    simp
  · obtain ⟨k, hk⟩ := exists_trimZeros (paddedDigits places rest)
    have hvalue := digitsValue_paddedDigits places rest
    have hlength := length_paddedDigits hplaces hrest
    rw [hk, ← fractionDigits] at hvalue hlength
    rw [digitsValue, Nat.ofDigitChars_append, Nat.ofDigitChars_replicate_zero] at hvalue
    rw [List.length_append, List.length_replicate] at hlength
    have hdropped : (10 : ℚ) ^ k ≠ 0 := by positivity
    generalize fractionDigits places rest = kept at hvalue hlength ⊢
    rw [← hvalue, ← hlength, pow_add, Nat.cast_mul, Nat.cast_pow, Nat.cast_ofNat,
      mul_comm ((10 : ℚ) ^ k), mul_div_mul_right _ _ hdropped]

/-- **Nothing is lost in writing**: what is written for `n` units of which `10 ^ places` make a
whole is `n / 10 ^ places`. -/
theorem isDecimal_decimal (places n : ℕ) : IsDecimal (decimal places n) (n / 10 ^ places) := by
  have hpow : Nat.pow 10 places = 10 ^ places := rfl
  have hrest : n % 10 ^ places < 10 ^ places := Nat.mod_lt n (Nat.pow_pos (by decide))
  have hvalue := fractionDigits_value hrest
  have hn : (n : ℚ) / 10 ^ places =
      (n / 10 ^ places : ℕ) + (n % 10 ^ places : ℕ) / 10 ^ places := by
    rw [eq_comm, eq_div_iff (by positivity), add_mul, div_mul_cancel₀ _ (by positivity)]
    exact_mod_cast Nat.div_add_mod' n (10 ^ places)
  rw [hn, ← hvalue]
  unfold decimal
  rw [hpow, ← fractionDigits]
  dsimp only
  have hdigits : ∀ c ∈ fractionDigits places (n % 10 ^ places), c.isDigit :=
    fun _ => isDigit_of_mem_fractionDigits
  rcases List.eq_nil_or_concat (fractionDigits places (n % 10 ^ places)) with
    hnil | ⟨front, last, hkept⟩
  · rw [hnil, digitsValue, Nat.ofDigitChars_nil, Nat.cast_zero, zero_div, add_zero]
    exact .whole _
  · rw [List.concat_eq_append] at hkept
    have hlast := last_trimZeros hkept
    rw [hkept] at hdigits ⊢
    have hfraction := IsDecimal.fraction (n / 10 ^ places) front hdigits hlast
    cases front <;> exact hfraction

/-! ## Units -/

/-- The unit that a duration is told in, with its nanoseconds: the largest one that the duration
reaches, and nanoseconds for those that reach none. -/
inductive ToldIn (d : Duration) : String → ℕ → Prop
  | seconds : 1000000000 ≤ d.nanos → ToldIn d "s" 1000000000
  | millis : 1000000 ≤ d.nanos → d.nanos < 1000000000 → ToldIn d "ms" 1000000
  | micros : 1000 ≤ d.nanos → d.nanos < 1000000 → ToldIn d "µs" 1000
  | nanos : d.nanos < 1000 → ToldIn d "ns" 1

/-- A text tells a duration: it is a decimal number and a unit, and their product is the
duration. -/
def Tells (d : Duration) (text : String) : Prop :=
  ∃ number unit size q, text = String.ofList number ++ unit ∧ IsDecimal number q ∧
    d.ToldIn unit size ∧ q * size = d.nanos

section

variable {d d' : Duration} {name : String} {size size' : ℕ}

/-- A unit begins with a letter. -/
theorem ToldIn.letter (h : d.ToldIn name size) :
    ∃ c cs, name.toList = c :: cs ∧ isNumeric c = false := by
  cases h with
  | seconds _ => exact ⟨'s', [], rfl, rfl⟩
  | millis _ _ => exact ⟨'m', ['s'], rfl, rfl⟩
  | micros _ _ => exact ⟨'µ', ['s'], rfl, by decide⟩
  | nanos _ => exact ⟨'n', ['s'], rfl, rfl⟩

/-- The name of a unit says its size. -/
theorem ToldIn.size_unique (h : d.ToldIn name size) (h' : d'.ToldIn name size') :
    size = size' := by
  generalize hname : name = name' at h'
  cases h <;> cases h' <;> first | rfl | exact absurd hname (by decide)

end

theorem unit_toldIn (d : Duration) : d.ToldIn d.unit.2 (10 ^ d.unit.1) := by
  unfold unit
  split
  · exact .seconds (by assumption)
  · split
    · exact .millis (by assumption) (by omega)
    · split
      · exact .micros (by assumption) (by omega)
      · exact .nanos (by omega)

/-- **The text of a duration tells it.** -/
theorem tells_text (d : Duration) : d.Tells d.text := by
  refine ⟨decimal d.unit.1 d.nanos, d.unit.2, 10 ^ d.unit.1, d.nanos / 10 ^ d.unit.1, rfl,
    isDecimal_decimal _ _, d.unit_toldIn, ?_⟩
  rw [Nat.cast_pow, Nat.cast_ofNat, div_mul_cancel₀]
  positivity

/-- The number of a text ends at its first letter. -/
theorem takeWhile_isNumeric {number : List Char} {q : ℚ} (hnumber : IsDecimal number q)
    {d : Duration} {name : String} {size : ℕ} (hunit : d.ToldIn name size) :
    (number ++ name.toList).takeWhile isNumeric = number := by
  obtain ⟨c, cs, hname, hc⟩ := hunit.letter
  rw [List.takeWhile_append_of_pos hnumber.isNumeric, hname,
    List.takeWhile_cons_of_neg (by rw [hc]; decide), List.append_nil]

/-- **A text tells one duration.** -/
theorem Tells.unique {d d' : Duration} {text : String} (h : d.Tells text) (h' : d'.Tells text) :
    d = d' := by
  obtain ⟨number, unit, size, q, rfl, hnumber, hunit, hproduct⟩ := h
  obtain ⟨number', unit', size', q', htext, hnumber', hunit', hproduct'⟩ := h'
  have hchars := congrArg String.toList htext
  rw [String.toList_append, String.toList_append, String.toList_ofList,
    String.toList_ofList] at hchars
  obtain rfl : number = number' := by
    rw [← takeWhile_isNumeric hnumber hunit, hchars, takeWhile_isNumeric hnumber' hunit']
  obtain rfl : unit = unit' := String.toList_inj.mp (List.append_cancel_left hchars)
  rw [hnumber.unique hnumber', hunit.size_unique hunit', hproduct'] at hproduct
  cases d
  cases d'
  exact congrArg Duration.mk (Nat.cast_injective hproduct.symm)

end Duration

/-! ## Time-outs -/

/-- The text of a time-out. -/
theorem CensusError.message_timeout (T : Duration) : (CensusError.mk (.timeout T)).message =
    "failed to fetch accounts: query timed out after " ++ T.text := by
  show "failed to fetch accounts: " ++ ("query timed out after " ++ T.text) = _
  rw [← String.append_assoc]
  rfl

namespace Service

/-- A fetch that was given up before it answered ends with the time-out. -/
theorem Fetch.fetched_of_not_answered {timeout : Duration} {f : Fetch}
    (h : (f.ending timeout).answered = false) :
    (f.ending timeout).fetched = .error (.timeout timeout) := by
  rcases f.ending_inTime_or_late timeout with ⟨a, -, -, hending⟩ | ⟨-, hending⟩
  · rw [hending] at h
    cases h
  · rw [hending]
    rfl

/-- A pass that ends although its fetch was given up has run into its time-out. -/
theorem fetched_of_abandoned {timeout : Duration} {inLoop : Bool} {t t' : ℕ}
    {driver : Census.Driver} {fetched : Fetched} {older : List (ℕ × Happening)}
    (h : Coherent timeout inLoop
      ((t, .censusEnded driver fetched) :: (t', .fetchEnded false) :: older)) :
    fetched = .error (.timeout timeout) := by
  obtain ⟨-, b, f, older', hentries, -, rfl⟩ := h.1
  obtain ⟨hended, -⟩ := List.cons_eq_cons.mp hentries
  refine Fetch.fetched_of_not_answered ?_
  exact (Happening.fetchEnded.inj (Prod.mk.inj hended).2).symm

/-- What was fetched is a failure whose text tells a time-out. -/
def TellsTimeout (timeout : Duration) (fetched : Fetched) : Prop :=
  ∃ e text, Census.result fetched = .error e ∧
    e.message = "failed to fetch accounts: query timed out after " ++ text ∧ timeout.Tells text

theorem tellsTimeout_timeout (T : Duration) : TellsTimeout T (.error (.timeout T)) :=
  ⟨_, _, rfl, CensusError.message_timeout T, T.tells_text⟩

/-- **The text of a time-out says how long it was.** Every pass that runs into its time-out fails
with a text that tells the time-out of its collector: behind the cause stand a decimal number and
a unit whose product it is. This holds of the passes of loops and of those in the foreground, which
are the ones that end although their fetch was given up; and a command for a census whose fetch is
late is answered with that failure. So different time-outs have different texts. -/
theorem time_out_is_told_exactly :
    (∀ (foreign : Gauge.Registry) (sources : List Source) (commands : List Command),
      let s := (create foreign sources).after commands
      (∀ c loop driver fetched t t' newer older, trace c loop s.history =
          newer ++ (t, .censusEnded driver fetched) :: (t', .fetchEnded false) :: older →
        TellsTimeout (timeoutOf sources c) fetched) ∧
      ∀ command c driver x, command.census? = some (c, driver) → s.has c = true →
        s.collectors[c]? = some x →
        (∀ a, x.beginFetch.2.answer = some a →
          (timeoutOf sources c).ceilMillis < x.beginFetch.2.delay) →
        ∃ fetched, (s.perform command).2 = command.tell fetched ∧
          TellsTimeout (timeoutOf sources c) fetched) ∧
    ∀ seconds nanos seconds' nanos' : ℕ, nanos < 10 ^ 9 → nanos' < 10 ^ 9 →
      (CensusError.mk (.timeout (.ofSeconds seconds nanos))).message =
        (CensusError.mk (.timeout (.ofSeconds seconds' nanos'))).message →
      seconds = seconds' ∧ nanos = nanos' := by
  refine ⟨fun foreign sources commands => ⟨?_, ?_⟩, ?_⟩
  · intro c loop driver fetched t t' newer older htrace
    have hcoherent := after_coherent foreign sources commands c loop
    rw [htrace] at hcoherent
    obtain rfl := fetched_of_abandoned hcoherent.older
    exact tellsTimeout_timeout _
  · intro command c driver x hcensus hhas hx hlate
    obtain ⟨-, hanswer⟩ := perform_census_ending hcensus hhas hx
    rw [timeout_eq foreign sources commands hx] at hanswer
    refine ⟨_, hanswer, ?_⟩
    rcases x.beginFetch.2.ending_inTime_or_late (timeoutOf sources c) with
      ⟨a, ha, hle, -⟩ | ⟨-, hending⟩
    · exact absurd (hlate a ha) (not_lt.mpr hle)
    · rw [hending]
      exact tellsTimeout_timeout _
  · intro seconds nanos seconds' nanos' hnanos hnanos' hmessage
    rw [CensusError.message_timeout, CensusError.message_timeout] at hmessage
    have htells := (Duration.ofSeconds seconds' nanos').tells_text
    rw [← (String.append_right_inj _).mp hmessage] at htells
    have htotal : seconds * 1000000000 + nanos = seconds' * 1000000000 + nanos' :=
      congrArg Duration.nanos ((Duration.tells_text _).unique htells)
    omega

/-- A millisecond and a nanosecond: the zeros behind the point are told, and no other time-out has
that text. -/
theorem time_out_a_nanosecond_long :
    let stalling : Fetch := ⟨none, 0, false⟩
    let sources : List Source := [⟨.ofMillis 100, .ofSeconds 0 1000001, [stalling, stalling]⟩]
    let s := (create {} sources).after [.start 0 false, .advance 10]
    let message := (CensusError.mk (.timeout (.ofSeconds 0 1000001))).message
    message = "failed to fetch accounts: query timed out after 1.000001ms" ∧
    trace 0 (some 0) s.history =
      [] ++ (2, .censusEnded .loop (.error (.timeout (.ofSeconds 0 1000001)))) ::
        (2, .fetchEnded false) :: [(0, .fetchBegan stalling), (0, .loopStarted (.ofMillis 100))] ∧
    TellsTimeout (timeoutOf sources 0) (.error (.timeout (.ofSeconds 0 1000001))) ∧
    (∃ fetched, (s.perform (.get 0)).2 = .tally (Census.result fetched) ∧
      TellsTimeout (timeoutOf sources 0) fetched) ∧
    ∀ seconds nanos, nanos < 10 ^ 9 →
      (CensusError.mk (.timeout (.ofSeconds seconds nanos))).message = message →
      seconds = 0 ∧ nanos = 1000001 := by
  intro stalling sources s message
  obtain ⟨hruns, hdiffer⟩ := time_out_is_told_exactly
  obtain ⟨hpasses, hcommands⟩ := hruns {} sources [.start 0 false, .advance 10]
  have htrace : trace 0 (some 0) s.history =
      [] ++ (2, .censusEnded .loop (.error (.timeout (.ofSeconds 0 1000001)))) ::
        (2, .fetchEnded false) ::
          [(0, .fetchBegan stalling), (0, .loopStarted (.ofMillis 100))] := by
    subst message s sources stalling
    rfl
  have hhas : s.has 0 = true := by decide +kernel
  obtain ⟨x, hx⟩ := exists_of_has hhas
  refine ⟨by decide +kernel, htrace, hpasses _ _ _ _ _ _ _ _ htrace,
    hcommands (.get 0) 0 .call x rfl hhas hx ?_, fun seconds nanos hnanos hmessage => ?_⟩
  · have hstalls : s.collectors[0]?.all (·.beginFetch.2.answer.isNone) = true := by
      decide +kernel
    rw [hx] at hstalls
    intro a ha
    rw [show x.beginFetch.2.answer = none from Option.isNone_iff_eq_none.mp hstalls] at ha
    cases ha
  · exact hdiffer seconds nanos 0 1000001 hnanos (by decide) hmessage

end Service

end AccountCensus
