import AccountCensus.Proofs.Positions
import Mathlib.Data.Fintype.Card

/-!
# The tally in another order

The number of duplicates depends on the order of the accounts, for an email that is taken keeps a
login from being recorded. How far it can go is told by three numbers that do not: how many accounts
there are, how many folded emails and how many folded logins. There is one opener for each email
(`card_openers`), and a login that no opener has costs an account that opens no email
(`loginCount_le`).
-/

namespace AccountCensus

open Finset

/-- How many different folded emails there are. -/
def emailCount (accounts : List Account) : ℕ := (accounts.map Account.foldedEmail).toFinset.card

/-- How many different folded logins there are. -/
def loginCount (accounts : List Account) : ℕ := (accounts.map Account.foldedLogin).toFinset.card

section Orders

variable (accounts : List Account)

theorem image_get {β : Type} [DecidableEq β] (f : Account → β) :
    (univ.image fun i : Fin accounts.length => f (accounts.get i)) = (accounts.map f).toFinset := by
  ext b
  simp [List.mem_iff_getElem]

/-! ## Openers -/

variable {accounts} in
/-- Every email is opened. -/
theorem exists_opener (i : Fin accounts.length) :
    ∃ j ∈ openers accounts, (accounts.get j).foldedEmail = (accounts.get i).foldedEmail := by
  induction i using WellFoundedLT.induction with
  | ind i ih =>
    by_cases hopens : OpensEmail accounts i
    · exact ⟨i, mem_openers.mpr hopens, rfl⟩
    · obtain ⟨j, hj, hsame⟩ := not_opensEmail_iff.mp hopens
      obtain ⟨o, ho, hopened⟩ := ih j hj
      exact ⟨o, ho, hopened.trans hsame⟩

/-- No email is opened twice. -/
theorem openers_injOn :
    Set.InjOn (fun i : Fin accounts.length => (accounts.get i).foldedEmail) (openers accounts) := by
  intro i hi j hj hsame
  rw [mem_coe, mem_openers] at hi hj
  rcases lt_trichotomy i j with hlt | heq | hgt
  · exact absurd hsame (hj i hlt)
  · exact heq
  · exact absurd hsame.symm (hi j hgt)

theorem card_openers : (openers accounts).card = emailCount accounts := by
  rw [emailCount, ← image_get, ← card_image_of_injOn (openers_injOn accounts)]
  congr 1
  ext e
  simp only [mem_image, mem_univ, true_and]
  constructor
  · rintro ⟨i, -, rfl⟩
    exact ⟨i, rfl⟩
  · rintro ⟨i, rfl⟩
    exact exists_opener i

/-! ## Bounds -/

theorem card_openersLogins_le_emails : (openersLogins accounts).card ≤ emailCount accounts :=
  card_image_le.trans_eq (card_openers accounts)

theorem card_openersLogins_le_logins : (openersLogins accounts).card ≤ loginCount accounts := by
  rw [loginCount, ← image_get]
  exact card_le_card (image_subset_image (subset_univ _))

/-- A login that no opener has is that of an account that opens no email. -/
theorem loginCount_le :
    loginCount accounts ≤
      (openersLogins accounts).card + (accounts.length - emailCount accounts) := by
  have hothers : (openers accounts)ᶜ.card = accounts.length - emailCount accounts := by
    rw [card_compl, Fintype.card_fin, card_openers]
  calc loginCount accounts
      = ((openers accounts ∪ (openers accounts)ᶜ).image fun i =>
          (accounts.get i).foldedLogin).card := by
        rw [union_compl, image_get, loginCount]
    _ ≤ (openersLogins accounts).card +
          ((openers accounts)ᶜ.image fun i => (accounts.get i).foldedLogin).card := by
        rw [image_union]
        exact card_union_le _ _
    _ ≤ (openersLogins accounts).card + (openers accounts)ᶜ.card :=
        Nat.add_le_add_left card_image_le _
    _ = (openersLogins accounts).card + (accounts.length - emailCount accounts) := by
        rw [hothers]

theorem openersLogins_nonempty (h : 0 < accounts.length) : (openersLogins accounts).Nonempty := by
  obtain ⟨o, ho, -⟩ := exists_opener (⟨0, h⟩ : Fin accounts.length)
  exact ⟨_, mem_image_of_mem _ ho⟩

theorem duplicates_bounds :
    max (accounts.length - emailCount accounts) (accounts.length - loginCount accounts) ≤
        (tally accounts).duplicates ∧
      (tally accounts).duplicates ≤
        (accounts.length - emailCount accounts) + (accounts.length - loginCount accounts) ∧
      (0 < accounts.length → (tally accounts).duplicates ≤ accounts.length - 1) := by
  have hbalance := duplicates_add_openersLogins accounts
  have hemails := card_openersLogins_le_emails accounts
  have hlogins := card_openersLogins_le_logins accounts
  have hlost := loginCount_le accounts
  refine ⟨max_le (by omega) (by omega), by omega, fun h => ?_⟩
  have hpos := (openersLogins_nonempty accounts h).card_pos
  omega

/-! ## The flag -/

/-- A login that is not recorded belongs to a duplicate, so no collision goes unnoticed. -/
theorem hasDuplicates_iff :
    (tally accounts).hasDuplicates ↔ ∃ i j : Fin accounts.length, i ≠ j ∧
      ((accounts.get i).foldedEmail = (accounts.get j).foldedEmail ∨
        (accounts.get i).foldedLogin = (accounts.get j).foldedLogin) := by
  have hrepeats : (tally accounts).hasDuplicates ↔ ∃ i, Repeats accounts i := by
    rw [Tally.hasDuplicates, decide_eq_true_eq, duplicates_eq_card, gt_iff_lt, card_pos]
    simp only [Finset.Nonempty, mem_filter, mem_univ, true_and]
  rw [hrepeats]
  constructor
  · rintro ⟨i, ⟨j, hj, hemail⟩ | ⟨j, hj, hlogin, -⟩⟩
    · exact ⟨j, i, hj.ne, .inl hemail⟩
    · exact ⟨j, i, hj.ne, .inr hlogin⟩
  · rintro ⟨i, j, hne, hsame⟩
    wlog hlt : i < j generalizing i j
    · exact this j i hne.symm (hsame.imp Eq.symm Eq.symm) (hne.lt_or_gt.resolve_left hlt)
    rcases hsame with hemail | hlogin
    · exact ⟨j, .inl ⟨i, hlt, hemail⟩⟩
    · by_cases hopens : OpensEmail accounts i
      · exact ⟨j, .inr ⟨i, hlt, hlogin, hopens⟩⟩
      · -- the login of account `i` is lost, but account `i` counts itself
        exact ⟨i, .inl (not_opensEmail_iff.mp hopens)⟩

theorem hasDuplicates_eq :
    (tally accounts).hasDuplicates =
      decide (emailCount accounts < accounts.length ∨ loginCount accounts < accounts.length) := by
  obtain ⟨hlower, hupper, -⟩ := duplicates_bounds accounts
  rw [Tally.hasDuplicates, decide_eq_decide]
  omega

/-! ## Mixed-cased accounts -/

variable {accounts} in
theorem mixedCased_addAll (s : Scan) :
    (s.addAll accounts).tally.mixedCased =
      s.tally.mixedCased + accounts.countP Account.isPlain := by
  induction accounts generalizing s with
  | nil => rfl
  | cons a rest ih =>
    rw [Scan.addAll, List.foldl_cons, ← Scan.addAll, ih, Scan.mixedCased_add, List.countP_cons]
    omega

theorem mixedCased_eq_countP :
    (tally accounts).mixedCased = accounts.countP Account.isPlain :=
  (mixedCased_addAll {}).trans (Nat.zero_add _)

/-! ## Permutations -/

variable {accounts} {others : List Account} (h : accounts.Perm others)
include h

theorem emailCount_of_perm : emailCount others = emailCount accounts :=
  congrArg card (List.toFinset_eq_of_perm _ _ (h.map _)).symm

theorem loginCount_of_perm : loginCount others = loginCount accounts :=
  congrArg card (List.toFinset_eq_of_perm _ _ (h.map _)).symm

end Orders

/-- **What the order of the accounts can change is the number of duplicates, within bounds.** The
mixed-cased accounts and the flag are those of every other order, and the flag tells whether two
positions share a folded email or a folded login. The number of duplicates depends on the order,
but no order leaves the bounds that the numbers of accounts, emails and logins set. -/
theorem order_matters_within_bounds :
    (∀ xs ys : List Account, xs.Perm ys →
      (tally ys).mixedCased = (tally xs).mixedCased ∧
      (tally ys).hasDuplicates = (tally xs).hasDuplicates ∧
      ((tally xs).hasDuplicates ↔ ∃ i j : Fin xs.length, i ≠ j ∧
        ((xs.get i).foldedEmail = (xs.get j).foldedEmail ∨
          (xs.get i).foldedLogin = (xs.get j).foldedLogin)) ∧
      max (xs.length - emailCount xs) (xs.length - loginCount xs) ≤ (tally ys).duplicates ∧
      (tally ys).duplicates ≤ (xs.length - emailCount xs) + (xs.length - loginCount xs) ∧
      (0 < xs.length → (tally ys).duplicates ≤ xs.length - 1)) ∧
    ∃ xs ys : List Account, xs.Perm ys ∧ (tally ys).duplicates ≠ (tally xs).duplicates := by
  constructor
  · intro xs ys h
    have hbounds := duplicates_bounds ys
    rw [emailCount_of_perm h, loginCount_of_perm h, ← h.length_eq] at hbounds
    refine ⟨?_, ?_, hasDuplicates_iff xs, hbounds⟩
    · rw [mixedCased_eq_countP, mixedCased_eq_countP, h.countP_eq]
    · rw [hasDuplicates_eq, hasDuplicates_eq, emailCount_of_perm h, loginCount_of_perm h,
        h.length_eq]
  · exact ⟨[⟨"mallory", "m@x"⟩, ⟨"eve", "M@x"⟩, ⟨"Eve", "eve@x"⟩],
      [⟨"eve", "M@x"⟩, ⟨"Eve", "eve@x"⟩, ⟨"mallory", "m@x"⟩],
      by decide +kernel, by decide +kernel⟩

theorem hidden_login_in_two_orders :
    let xs : List Account := [⟨"mallory", "m@x"⟩, ⟨"eve", "M@x"⟩, ⟨"Eve", "eve@x"⟩]
    let ys : List Account := [⟨"eve", "M@x"⟩, ⟨"Eve", "eve@x"⟩, ⟨"mallory", "m@x"⟩]
    xs.Perm ys ∧ emailCount xs = 2 ∧ loginCount xs = 2 ∧ (tally xs).duplicates = 1 ∧
      (tally ys).duplicates = 2 ∧ (tally ys).hasDuplicates = (tally xs).hasDuplicates ∧
      (tally ys).duplicates ≤ xs.length - 1 := by
  intro xs ys
  have hperm : xs.Perm ys := by decide +kernel
  obtain ⟨-, hflag, -, -, -, hmost⟩ := order_matters_within_bounds.1 xs ys hperm
  exact ⟨hperm, by decide +kernel, by decide +kernel, by decide +kernel, by decide +kernel,
    hflag, hmost (by decide)⟩

end AccountCensus
