import AccountCensus.Account.Tally
import Mathlib.Algebra.BigOperators.Fin
import Mathlib.Data.Finset.Card
import Mathlib.Data.Fintype.Basic

/-!
# The tally by positions

What a scan records depends on what it found before, so whether an account is a duplicate is told by
the course of the scan. Here it is told by the list alone. An account opens its folded email if no
account before it has the same, and an account repeats another if its email is not opened by it or
if its login is that of an earlier account which opens its email (`Repeats`). The scan of the first
`k` accounts has recorded the emails and the openers' logins below `k` (`Scanned`); so it counts the
repeats, and each account either adds a login or counts (`duplicates_add_openersLogins`).
-/

namespace AccountCensus

open Finset

/-! ## One account -/

theorem Account.isPlain_iff (a : Account) :
    a.isPlain ↔ a.email = a.foldedEmail ∨ a.login = a.foldedLogin := by
  rw [isPlain, Bool.or_eq_true, beq_iff_eq, beq_iff_eq, eq_comm, @eq_comm _ a.login]

namespace Scan

variable (s : Scan) (a : Account)

/-- An account with a known email leaves no trace but the counts. Otherwise its email is recorded,
and its login unless that is known. -/
theorem add_cases :
    (a.foldedEmail ∈ s.emails ∧ s.add a = (s.countPlain a).countDuplicate) ∨
    (a.foldedEmail ∉ s.emails ∧ a.foldedLogin ∈ s.logins ∧
      s.add a = { (s.countPlain a).countDuplicate with emails := a.foldedEmail :: s.emails }) ∨
    (a.foldedEmail ∉ s.emails ∧ a.foldedLogin ∉ s.logins ∧
      s.add a = { s.countPlain a with
        emails := a.foldedEmail :: s.emails
        logins := a.foldedLogin :: s.logins }) := by
  by_cases hemail : a.foldedEmail ∈ s.emails
  · exact .inl ⟨hemail, by simp [add, countPlain, hemail]⟩
  · by_cases hlogin : a.foldedLogin ∈ s.logins
    · exact .inr (.inl ⟨hemail, hlogin, by simp [add, countPlain, countDuplicate, hemail, hlogin]⟩)
    · exact .inr (.inr ⟨hemail, hlogin, by simp [add, countPlain, hemail, hlogin]⟩)

theorem mem_emails_add {e : String} :
    e ∈ (s.add a).emails ↔ e ∈ s.emails ∨ a.foldedEmail = e := by
  obtain ⟨hemail, h⟩ | ⟨-, -, h⟩ | ⟨-, -, h⟩ := s.add_cases a
  · rw [h]
    exact ⟨.inl, fun he => he.elim id fun he => he ▸ hemail⟩
  · rw [h, List.mem_cons, or_comm, eq_comm]
  · rw [h, List.mem_cons, or_comm, eq_comm]

/-- The login of an account with a known email is not recorded. -/
theorem mem_logins_add {l : String} :
    l ∈ (s.add a).logins ↔ l ∈ s.logins ∨ a.foldedEmail ∉ s.emails ∧ a.foldedLogin = l := by
  obtain ⟨hemail, h⟩ | ⟨hemail, hlogin, h⟩ | ⟨hemail, -, h⟩ := s.add_cases a
  · rw [h]
    exact ⟨.inl, fun hl => hl.elim id fun hl => absurd hemail hl.1⟩
  · rw [h]
    exact ⟨.inl, fun hl => hl.elim id fun hl => hl.2 ▸ hlogin⟩
  · rw [h, List.mem_cons, or_comm, eq_comm, and_iff_right hemail]

theorem nodup_logins_add (hs : s.logins.Nodup) : (s.add a).logins.Nodup := by
  obtain ⟨-, h⟩ | ⟨-, -, h⟩ | ⟨-, hlogin, h⟩ := s.add_cases a
  · rwa [h]
  · rwa [h]
  · rw [h]
    exact List.nodup_cons.mpr ⟨hlogin, hs⟩

theorem duplicates_add :
    (s.add a).tally.duplicates = s.tally.duplicates +
      if a.foldedEmail ∈ s.emails ∨ a.foldedLogin ∈ s.logins then 1 else 0 := by
  obtain ⟨hemail, h⟩ | ⟨-, hlogin, h⟩ | ⟨hemail, hlogin, h⟩ := s.add_cases a
  · rw [h, if_pos (.inl hemail)]
    rfl
  · rw [h, if_pos (.inr hlogin)]
    rfl
  · rw [h, if_neg (not_or.mpr ⟨hemail, hlogin⟩)]
    rfl

/-- Each account either counts as a duplicate or adds a login. -/
theorem duplicates_add_length :
    (s.add a).tally.duplicates + (s.add a).logins.length =
      s.tally.duplicates + s.logins.length + 1 := by
  obtain ⟨-, h⟩ | ⟨-, -, h⟩ | ⟨-, -, h⟩ := s.add_cases a
  · rw [h]
    exact Nat.add_right_comm ..
  · rw [h]
    exact Nat.add_right_comm ..
  · rw [h]
    rfl

theorem mixedCased_add :
    (s.add a).tally.mixedCased = s.tally.mixedCased + if a.isPlain then 1 else 0 := by
  obtain ⟨-, h⟩ | ⟨-, -, h⟩ | ⟨-, -, h⟩ := s.add_cases a
  all_goals
    rw [h]
    rfl

end Scan

/-! ## All accounts -/

/-- No account before account `i` has its folded email. -/
def OpensEmail (accounts : List Account) (i : Fin accounts.length) : Prop :=
  ∀ j < i, (accounts.get j).foldedEmail ≠ (accounts.get i).foldedEmail

/-- An account before account `i` has its folded email, or it has its folded login and opens its
own email. -/
def Repeats (accounts : List Account) (i : Fin accounts.length) : Prop :=
  (∃ j < i, (accounts.get j).foldedEmail = (accounts.get i).foldedEmail) ∨
    ∃ j < i, (accounts.get j).foldedLogin = (accounts.get i).foldedLogin ∧ OpensEmail accounts j

section Positions

variable (accounts : List Account)

instance : DecidablePred (OpensEmail accounts) := fun i =>
  inferInstanceAs (Decidable (∀ j < i, (accounts.get j).foldedEmail ≠ (accounts.get i).foldedEmail))

instance : DecidablePred (Repeats accounts) := fun i =>
  inferInstanceAs (Decidable
    ((∃ j < i, (accounts.get j).foldedEmail = (accounts.get i).foldedEmail) ∨
      ∃ j < i, (accounts.get j).foldedLogin = (accounts.get i).foldedLogin ∧ OpensEmail accounts j))

/-- The positions of the accounts that open their email. -/
def openers : Finset (Fin accounts.length) := univ.filter (OpensEmail accounts)

/-- The folded logins of the accounts that open their email. -/
def openersLogins : Finset String := (openers accounts).image fun i => (accounts.get i).foldedLogin

/-- The scan of the first `k` accounts. -/
def scanOf (k : ℕ) : Scan := Scan.addAll {} (accounts.take k)

theorem scanOf_length : (scanOf accounts accounts.length).tally = tally accounts := by
  rw [scanOf, List.take_length, tally]

theorem scanOf_succ (i : Fin accounts.length) :
    scanOf accounts (i + 1) = (scanOf accounts i).add (accounts.get i) := by
  unfold scanOf Scan.addAll
  rw [List.take_succ_eq_append_getElem i.isLt, List.foldl_append]
  rfl

variable {accounts}

theorem not_opensEmail_iff {i : Fin accounts.length} : ¬ OpensEmail accounts i ↔
    ∃ j < i, (accounts.get j).foldedEmail = (accounts.get i).foldedEmail := by
  simp only [OpensEmail, not_forall, not_not, exists_prop]

theorem mem_openers {i : Fin accounts.length} : i ∈ openers accounts ↔ OpensEmail accounts i := by
  simp only [openers, mem_filter, mem_univ, true_and]

/-- A scan has recorded the emails and the openers' logins below position `k`, the logins once
each, and has counted the accounts without one. -/
structure Scanned (accounts : List Account) (k : ℕ) (s : Scan) : Prop where
  emails : ∀ e, e ∈ s.emails ↔
    ∃ j : Fin accounts.length, j < k ∧ (accounts.get j).foldedEmail = e
  logins : ∀ l, l ∈ s.logins ↔
    ∃ j : Fin accounts.length, j < k ∧ (accounts.get j).foldedLogin = l ∧ OpensEmail accounts j
  nodup : s.logins.Nodup
  counted : s.tally.duplicates + s.logins.length = k

theorem exists_below_succ {n : ℕ} (i : Fin n) (p : Fin n → Prop) :
    (∃ j : Fin n, (j : ℕ) < i + 1 ∧ p j) ↔ (∃ j : Fin n, (j : ℕ) < i ∧ p j) ∨ p i := by
  constructor
  · rintro ⟨j, hj, hp⟩
    rcases Nat.lt_succ_iff_lt_or_eq.mp hj with hlt | heq
    · exact .inl ⟨j, hlt, hp⟩
    · exact .inr (Fin.ext heq ▸ hp)
  · rintro (⟨j, hj, hp⟩ | hp)
    · exact ⟨j, Nat.lt_succ_of_lt hj, hp⟩
    · exact ⟨i, Nat.lt_succ_self i, hp⟩

namespace Scanned

variable {i : Fin accounts.length} {s : Scan} (h : Scanned accounts i s)
include h

theorem opensEmail_iff : OpensEmail accounts i ↔ (accounts.get i).foldedEmail ∉ s.emails := by
  rw [h.emails, iff_not_comm, not_opensEmail_iff]
  rfl

theorem repeats_iff :
    Repeats accounts i ↔
      (accounts.get i).foldedEmail ∈ s.emails ∨ (accounts.get i).foldedLogin ∈ s.logins := by
  rw [h.emails, h.logins]
  rfl

theorem add : Scanned accounts (i + 1) (s.add (accounts.get i)) where
  emails e := by
    rw [Scan.mem_emails_add, h.emails, exists_below_succ]
  logins l := by
    rw [Scan.mem_logins_add, h.logins, exists_below_succ, ← h.opensEmail_iff,
      @and_comm (OpensEmail accounts i)]
  nodup := s.nodup_logins_add _ h.nodup
  counted := (s.duplicates_add_length _).trans (congrArg (· + 1) h.counted)

end Scanned

variable (accounts)

theorem scanned_scanOf {k : ℕ} (hk : k ≤ accounts.length) :
    Scanned accounts k (scanOf accounts k) := by
  induction k with
  | zero =>
    exact ⟨by simp [scanOf, Scan.addAll], by simp [scanOf, Scan.addAll], List.nodup_nil, rfl⟩
  | succ k ih =>
    rw [scanOf_succ accounts ⟨k, hk⟩]
    exact (ih (Nat.le_of_succ_le hk)).add (i := ⟨k, hk⟩)

/-- A count that goes up by one at the positions with a property, and stays at the others, ends as
the number of these positions. -/
theorem eq_card_of_steps {n : ℕ} {p : Fin n → Prop} [DecidablePred p] (count : ℕ → ℕ)
    (hzero : count 0 = 0) (hsucc : ∀ i : Fin n, count (i + 1) = count i + if p i then 1 else 0) :
    count n = (univ.filter p).card := by
  induction n with
  | zero => simpa using hzero
  | succ n ih =>
    have hbefore : count n = (univ.filter fun i : Fin n => p i.castSucc).card :=
      ih fun i => hsucc i.castSucc
    rw [card_filter, Fin.sum_univ_castSucc, ← card_filter, ← hbefore]
    exact hsucc (Fin.last n)

theorem duplicates_eq_card :
    (tally accounts).duplicates = (univ.filter (Repeats accounts)).card := by
  rw [← scanOf_length]
  refine eq_card_of_steps (fun k => (scanOf accounts k).tally.duplicates) rfl fun i => ?_
  have hscanned := scanned_scanOf accounts i.isLt.le
  simp only [scanOf_succ, Scan.duplicates_add, hscanned.repeats_iff]

theorem mixedCased_eq_card :
    (tally accounts).mixedCased = (univ.filter fun i : Fin accounts.length =>
      (accounts.get i).isPlain).card := by
  rw [← scanOf_length]
  refine eq_card_of_steps (fun k => (scanOf accounts k).tally.mixedCased) rfl fun i => ?_
  simp only [scanOf_succ, Scan.mixedCased_add]

theorem mem_openersLogins {l : String} :
    l ∈ openersLogins accounts ↔
      ∃ i : Fin accounts.length, (accounts.get i).foldedLogin = l ∧ OpensEmail accounts i := by
  simp only [openersLogins, mem_image, mem_openers, and_comm]

/-- **Each account is a duplicate or adds an opener's login.** -/
theorem duplicates_add_openersLogins :
    (tally accounts).duplicates + (openersLogins accounts).card = accounts.length := by
  have hscanned := scanned_scanOf accounts (Nat.le_refl _)
  have hlogins : openersLogins accounts = (scanOf accounts accounts.length).logins.toFinset := by
    ext l
    rw [mem_openersLogins, List.mem_toFinset, hscanned.logins]
    exact exists_congr fun i => (and_iff_right i.isLt).symm
  rw [hlogins, List.toFinset_card_of_nodup hscanned.nodup, ← scanOf_length]
  exact hscanned.counted

/-- **The tally is a count of positions.** Duplicates are the accounts that repeat an earlier one,
which leaves as many as the openers have folded logins; mixed-cased are those with a text that is
its own fold. -/
theorem tally_counts_positions :
    (tally accounts).duplicates = (univ.filter (Repeats accounts)).card ∧
    (tally accounts).duplicates + (openersLogins accounts).card = accounts.length ∧
    (tally accounts).mixedCased =
      (univ.filter fun i : Fin accounts.length =>
        (accounts.get i).email = (accounts.get i).foldedEmail ∨
          (accounts.get i).login = (accounts.get i).foldedLogin).card := by
  refine ⟨duplicates_eq_card accounts, duplicates_add_openersLogins accounts, ?_⟩
  rw [mixedCased_eq_card]
  simp only [Account.isPlain_iff]

/-- The second account shares its email with the first, so its login is free for the third. -/
example :
    let accounts : List Account := [⟨"mallory", "m@x"⟩, ⟨"eve", "M@x"⟩, ⟨"Eve", "eve@x"⟩]
    (tally accounts).duplicates = 1 ∧ openersLogins accounts = {"mallory", "eve"} := by
  decide +kernel

end Positions

end AccountCensus
