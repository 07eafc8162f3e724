import AccountCensus.Proofs.Orders

/-!
# The tally of a part

An account that is left out can change the verdict on others: an email that it opened is opened by
a later account, whose login is then recorded and can make yet another account a duplicate. What a
list of accounts records behind some known emails is told by recursion (`loginsBehind`). One more
email that is known takes at most one login away from that, that of the account which would have
opened it (`exists_subset_insert_loginsBehind`). So the recorded logins of a list with and without
an account differ by one login at most in either direction, and the duplicates by none to two.
-/

namespace AccountCensus

open Finset

/-! ## Recorded logins -/

/-- The folded logins that accounts add to a scan which knows these folded emails. -/
def loginsBehind (known : Finset String) : List Account → Finset String
  | [] => ∅
  | a :: rest =>
    if a.foldedEmail ∈ known then loginsBehind known rest
    else insert a.foldedLogin (loginsBehind (insert a.foldedEmail known) rest)

/-- The folded emails of accounts. -/
def emailsOf (accounts : List Account) : Finset String :=
  (accounts.map Account.foldedEmail).toFinset

section

variable {known known' : Finset String} {a : Account} {rest : List Account}

theorem loginsBehind_known (h : a.foldedEmail ∈ known) :
    loginsBehind known (a :: rest) = loginsBehind known rest :=
  if_pos h

theorem loginsBehind_new (h : a.foldedEmail ∉ known) :
    loginsBehind known (a :: rest) =
      insert a.foldedLogin (loginsBehind (insert a.foldedEmail known) rest) :=
  if_neg h

theorem loginsBehind_append (xs ys : List Account) :
    loginsBehind known (xs ++ ys) =
      loginsBehind known xs ∪ loginsBehind (known ∪ emailsOf xs) ys := by
  induction xs generalizing known with
  | nil => simp [loginsBehind, emailsOf]
  | cons a xs ih =>
      have hemails : known ∪ emailsOf (a :: xs) = insert a.foldedEmail known ∪ emailsOf xs := by
        rw [emailsOf, List.map_cons, List.toFinset_cons, union_insert, insert_union]
        rfl
      rw [List.cons_append, hemails]
      by_cases hknown : a.foldedEmail ∈ known
      · rw [loginsBehind_known hknown, loginsBehind_known hknown, ih, insert_eq_of_mem hknown]
      · rw [loginsBehind_new hknown, loginsBehind_new hknown, ih]
        exact (insert_union _ _ _).symm

/-- The more emails are known, the fewer logins are recorded. -/
theorem loginsBehind_subset (h : known ⊆ known') :
    loginsBehind known' rest ⊆ loginsBehind known rest := by
  induction rest generalizing known known' with
  | nil => exact Subset.rfl
  | cons a rest ih =>
      by_cases hknown' : a.foldedEmail ∈ known'
      · rw [loginsBehind_known hknown']
        by_cases hknown : a.foldedEmail ∈ known
        · rw [loginsBehind_known hknown]
          exact ih h
        · rw [loginsBehind_new hknown]
          exact (ih (insert_subset hknown' h)).trans (subset_insert _ _)
      · rw [loginsBehind_new hknown', loginsBehind_new fun hknown => hknown' (h hknown)]
        exact insert_subset_insert _ (ih (insert_subset_insert _ h))

/-- **One more email that is known takes one login away at most**, that of the account which
would have opened the email. -/
theorem exists_subset_insert_loginsBehind (email : String) (known : Finset String)
    (accounts : List Account) :
    ∃ l, loginsBehind known accounts ⊆ insert l (loginsBehind (insert email known) accounts) := by
  induction accounts generalizing known with
  | nil => exact ⟨email, empty_subset _⟩
  | cons a rest ih =>
      by_cases hknown : a.foldedEmail ∈ known
      · obtain ⟨l, hl⟩ := ih known
        rw [loginsBehind_known hknown, loginsBehind_known (mem_insert_of_mem hknown)]
        exact ⟨l, hl⟩
      · rw [loginsBehind_new hknown]
        by_cases hopens : a.foldedEmail = email
        · -- from here on the email is known either way
          rw [loginsBehind_known (by rw [hopens]; exact mem_insert_self _ _), hopens]
          exact ⟨a.foldedLogin, Subset.rfl⟩
        · obtain ⟨l, hl⟩ := ih (insert a.foldedEmail known)
          rw [insert_comm email] at hl
          rw [loginsBehind_new (by simp [hopens, hknown])]
          refine ⟨l, ?_⟩
          rw [insert_comm l]
          exact insert_subset_insert _ hl

/-- **With and without an account** the recorded logins differ by one login at most in either
direction. -/
theorem loginsBehind_cons_subset (known : Finset String) (a : Account) (rest : List Account) :
    loginsBehind known (a :: rest) ⊆ insert a.foldedLogin (loginsBehind known rest) ∧
      ∃ l, loginsBehind known rest ⊆ insert l (loginsBehind known (a :: rest)) := by
  by_cases hknown : a.foldedEmail ∈ known
  · rw [loginsBehind_known hknown]
    exact ⟨subset_insert _ _, a.foldedLogin, subset_insert _ _⟩
  · rw [loginsBehind_new hknown]
    obtain ⟨l, hl⟩ := exists_subset_insert_loginsBehind a.foldedEmail known rest
    exact ⟨insert_subset_insert _ (loginsBehind_subset (subset_insert _ _)), l,
      hl.trans (insert_subset_insert _ (subset_insert _ _))⟩

end

/-! ## Duplicates -/

theorem logins_addAll (s : Scan) (accounts : List Account) :
    (s.addAll accounts).logins.toFinset =
      s.logins.toFinset ∪ loginsBehind s.emails.toFinset accounts := by
  induction accounts generalizing s with
  | nil => exact (union_empty _).symm
  | cons a rest ih =>
      have hemails : (s.add a).emails.toFinset = insert a.foldedEmail s.emails.toFinset := by
        ext e
        rw [List.mem_toFinset, Scan.mem_emails_add, mem_insert, List.mem_toFinset, or_comm,
          eq_comm]
      rw [Scan.addAll, List.foldl_cons, ← Scan.addAll, ih, hemails]
      by_cases hknown : a.foldedEmail ∈ s.emails
      · have hlogins : (s.add a).logins.toFinset = s.logins.toFinset := by
          ext l
          simp [Scan.mem_logins_add, hknown]
        have hmem : a.foldedEmail ∈ s.emails.toFinset := List.mem_toFinset.mpr hknown
        rw [hlogins, insert_eq_of_mem hmem, loginsBehind_known hmem]
      · have hlogins : (s.add a).logins.toFinset = insert a.foldedLogin s.logins.toFinset := by
          ext l
          rw [List.mem_toFinset, Scan.mem_logins_add, mem_insert, List.mem_toFinset, or_comm,
            and_iff_right hknown, @eq_comm _ l]
        rw [hlogins, loginsBehind_new (mt List.mem_toFinset.mp hknown), insert_union, union_insert]

/-- Each account is a duplicate or adds a login. -/
theorem duplicates_add_loginsBehind (accounts : List Account) :
    (tally accounts).duplicates + (loginsBehind ∅ accounts).card = accounts.length := by
  have hscanned := scanned_scanOf accounts (Nat.le_refl _)
  have hlogins : loginsBehind ∅ accounts = (scanOf accounts accounts.length).logins.toFinset := by
    rw [scanOf, List.take_length, logins_addAll]
    exact (empty_union _).symm
  rw [hlogins, List.toFinset_card_of_nodup hscanned.nodup, ← scanOf_length]
  exact hscanned.counted

theorem card_le_of_subset_insert {l : String} {xs ys : Finset String} (h : xs ⊆ insert l ys) :
    xs.card ≤ ys.card + 1 :=
  (card_le_card h).trans (card_insert_le l ys)

/-- **Leaving out one account** takes away none to two duplicates. -/
theorem duplicates_omit (before : List Account) (a : Account) (after : List Account) :
    (tally (before ++ after)).duplicates ≤ (tally (before ++ a :: after)).duplicates ∧
      (tally (before ++ a :: after)).duplicates ≤ (tally (before ++ after)).duplicates + 2 := by
  have hwith := duplicates_add_loginsBehind (before ++ a :: after)
  have hwithout := duplicates_add_loginsBehind (before ++ after)
  rw [loginsBehind_append] at hwith hwithout
  rw [List.length_append, List.length_cons] at hwith
  rw [List.length_append] at hwithout
  obtain ⟨hgain, l, hloss⟩ := loginsBehind_cons_subset (∅ ∪ emailsOf before) a after
  have hmore := card_le_of_subset_insert
    ((union_subset_union_right (s := loginsBehind ∅ before) hgain).trans_eq (union_insert _ _ _))
  have hfewer := card_le_of_subset_insert
    ((union_subset_union_right (s := loginsBehind ∅ before) hloss).trans_eq (union_insert _ _ _))
  omega

/-- A list reports no fewer duplicates than its parts in the same order. -/
theorem duplicates_mono (before : List Account) {part accounts : List Account}
    (h : part.Sublist accounts) :
    (tally (before ++ part)).duplicates ≤ (tally (before ++ accounts)).duplicates := by
  induction h generalizing before with
  | slnil => exact Nat.le_refl _
  | @cons part accounts a _ ih => exact (ih before).trans (duplicates_omit before a accounts).1
  | @cons_cons part accounts a _ ih =>
      rw [List.append_cons, List.append_cons before a accounts]
      exact ih (before ++ [a])

/-- An account of the second list that opens its email in the whole opens it in the second. -/
theorem duplicates_append (xs ys : List Account) :
    (tally xs).duplicates + (tally ys).duplicates ≤ (tally (xs ++ ys)).duplicates := by
  have hxs := duplicates_add_loginsBehind xs
  have hys := duplicates_add_loginsBehind ys
  have hboth := duplicates_add_loginsBehind (xs ++ ys)
  have hcard : (loginsBehind ∅ (xs ++ ys)).card ≤
      (loginsBehind ∅ xs).card + (loginsBehind ∅ ys).card := by
    rw [loginsBehind_append]
    exact (card_union_le _ _).trans
      (Nat.add_le_add_left (card_le_card (loginsBehind_subset (empty_subset _))) _)
  rw [List.length_append] at hboth
  omega

/-- **A part reports no more than the whole.** Without one of its accounts a list has the same
number of duplicates, or one or two fewer, and the same number of mixed-cased accounts, or one
fewer. Accounts that are left out, however many, never add a duplicate. Of two lists that are joined
the duplicates add up, and collisions between the two come on top; the mixed-cased accounts add up
exactly. -/
theorem parts_never_report_more :
    (∀ (accounts : List Account) (i : Fin accounts.length),
      let others := accounts.eraseIdx i
      (tally others).duplicates ≤ (tally accounts).duplicates ∧
      (tally accounts).duplicates ≤ (tally others).duplicates + 2 ∧
      ((tally accounts).mixedCased = (tally others).mixedCased ∨
        (tally accounts).mixedCased = (tally others).mixedCased + 1)) ∧
    (∀ part accounts : List Account, part.Sublist accounts →
      (tally part).duplicates ≤ (tally accounts).duplicates) ∧
    ∀ xs ys : List Account,
      (tally xs).duplicates + (tally ys).duplicates ≤ (tally (xs ++ ys)).duplicates ∧
      (tally (xs ++ ys)).mixedCased = (tally xs).mixedCased + (tally ys).mixedCased := by
  refine ⟨fun accounts i => ?_, fun part accounts => duplicates_mono [],
    fun xs ys => ⟨duplicates_append xs ys, ?_⟩⟩
  · have hsplit : accounts = accounts.take i ++ accounts.get i :: accounts.drop (i + 1) := by
      rw [List.get_eq_getElem, List.getElem_cons_drop, List.take_append_drop]
    obtain ⟨hle, hge⟩ :=
      duplicates_omit (accounts.take i) (accounts.get i) (accounts.drop (i + 1))
    rw [← hsplit] at hle hge
    rw [List.eraseIdx_eq_take_drop_succ]
    refine ⟨hle, hge, ?_⟩
    have hplain : accounts.countP Account.isPlain =
        (accounts.take i ++ accounts.drop (i + 1)).countP Account.isPlain +
          if (accounts.get i).isPlain then 1 else 0 := by
      rw [congrArg (List.countP Account.isPlain) hsplit, List.countP_append, List.countP_cons,
        List.countP_append, Nat.add_assoc]
    rw [mixedCased_eq_countP, mixedCased_eq_countP, hplain]
    split
    · exact .inr rfl
    · exact .inl rfl
  · rw [mixedCased_eq_countP, mixedCased_eq_countP, mixedCased_eq_countP, List.countP_append]

/-- Without its first account the list loses two duplicates: the second account is then the first
with its login, and the third opens its email. -/
theorem two_duplicates_hang_on_one :
    let first : Account := ⟨"ann", "a@x"⟩
    let others : List Account := [⟨"Ann", "b@x"⟩, ⟨"bea", "A@x"⟩]
    others.Sublist (first :: others) ∧ (tally others).duplicates = 0 ∧
      (tally (first :: others)).duplicates = 2 ∧
      (tally others).duplicates ≤ (tally (first :: others)).duplicates := by
  intro first others
  have hpart : others.Sublist (first :: others) := List.sublist_cons_self first others
  exact ⟨hpart, by decide +kernel, by decide +kernel,
    parts_never_report_more.2.1 others (first :: others) hpart⟩

end AccountCensus
