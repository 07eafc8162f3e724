import AccountCensus.Proofs.Parts
import Mathlib.Data.List.Forall2

/-!
# Folding twice, folding parts

Folding a text again changes nothing. This is a fact about the table of runs: a run takes its code
points to code points that no run displaces. It is enough to compare the runs by their ends and
their steps (`foldRuns_settle`), since what a run folds to lies in front of another run, behind it,
or between its code points (`FoldRun.foldCodeBy_shift`). All else that a text keeps under folding it
keeps because every character is folded by itself.

A census sees accounts through their folds only, so folding them beforehand, or writing them in
another case, changes no duplicate (`duplicates_eq_of_sameFolds`).
-/

namespace AccountCensus

namespace Account

/-! ## Runs -/

namespace FoldRun

variable {r other : FoldRun} {code : ℕ}

theorem covers_iff : r.covers code = true ↔
    r.first ≤ code ∧ code ≤ r.last ∧ r.step ∣ code - r.first := by
  simp [covers, Nat.dvd_iff_mod_eq_zero, and_assoc]

/-- What the first code point of the run folds to. -/
def firstImage (r : FoldRun) : ℕ := (r.first + r.shift).toNat

/-- What the last one folds to. -/
def lastImage (r : FoldRun) : ℕ := r.firstImage + (r.last - r.first)

/-- What the run folds to are code points of characters. -/
def lands (r : FoldRun) : Bool :=
  0 ≤ r.first + r.shift &&
    (r.lastImage < 0xD800 || 0xDFFF < r.firstImage && r.lastImage < 0x110000)

/-- What the run folds to lies behind another run, or between its code points. -/
def misses (r other : FoldRun) : Bool :=
  Nat.blt other.last r.firstImage ||
    (r.first == r.last || r.step % other.step == 0) &&
      r.firstImage % other.step != other.first % other.step

/-- What the run folds to is missed by ascending runs. Those behind it need not be looked at. -/
def clears (r : FoldRun) : List FoldRun → Bool
  | [] => true
  | other :: runs => Nat.blt r.lastImage other.first || r.misses other && r.clears runs

theorem toNat_shift (hlands : r.lands = true) (h : r.covers code = true) :
    (code + r.shift).toNat = r.firstImage + (code - r.first) := by
  obtain ⟨hfirst, -, -⟩ := covers_iff.mp h
  simp only [lands, Bool.and_eq_true, decide_eq_true_eq] at hlands
  unfold firstImage
  omega

theorem toNat_shift_le (hlands : r.lands = true) (h : r.covers code = true) :
    (code + r.shift).toNat ≤ r.lastImage := by
  obtain ⟨-, hlast, -⟩ := covers_iff.mp h
  rw [toNat_shift hlands h, lastImage]
  exact Nat.add_le_add_left (Nat.sub_le_sub_right hlast _) _

theorem isValidChar_shift (hlands : r.lands = true) (h : r.covers code = true) :
    (code + r.shift).toNat.isValidChar := by
  have hle := toNat_shift_le hlands h
  rw [toNat_shift hlands h] at hle ⊢
  simp only [lands, Bool.and_eq_true, Bool.or_eq_true, decide_eq_true_eq] at hlands
  unfold Nat.isValidChar
  omega

/-- **A run that another one misses covers nothing that the other one folds to.** -/
theorem covers_eq_false (hlands : r.lands = true) (hmisses : r.misses other = true)
    (h : r.covers code = true) : other.covers (code + r.shift).toNat = false := by
  rw [Bool.eq_false_iff, toNat_shift hlands h]
  intro hcovers
  obtain ⟨hfirst, hlast, hstep⟩ := covers_iff.mp h
  obtain ⟨hfirst', hlast', q, hq⟩ := covers_iff.mp hcovers
  simp only [misses, Bool.or_eq_true, Bool.and_eq_true, Nat.blt_eq, beq_iff_eq,
    bne_iff_ne] at hmisses
  rcases hmisses with hbehind | ⟨hsteps, hbetween⟩
  · omega
  · -- both are whole steps away from where their runs begin
    obtain ⟨p, hp⟩ : other.step ∣ code - r.first := by
      rcases hsteps with hsingle | hsteps
      · rw [show code - r.first = 0 by omega]
        exact Nat.dvd_zero _
      · exact Nat.dvd_trans (Nat.dvd_of_mod_eq_zero hsteps) hstep
    refine hbetween ?_
    calc r.firstImage % other.step
        = (r.firstImage + other.step * p) % other.step := (Nat.add_mul_mod_self_left ..).symm
      _ = (other.first + other.step * q) % other.step := by
          rw [← hq, ← hp, Nat.add_sub_cancel' hfirst']
      _ = other.first % other.step := Nat.add_mul_mod_self_left ..

/-- What a run folds to stays where it is among runs that it clears. -/
theorem foldCodeBy_shift (hlands : r.lands = true) (h : r.covers code = true) :
    ∀ {runs : List FoldRun}, r.clears runs = true →
      foldCodeBy runs (code + r.shift).toNat = (code + r.shift).toNat
  | [], _ => rfl
  | other :: runs, hclears => by
      have hle := toNat_shift_le hlands h
      simp only [clears, Bool.or_eq_true, Bool.and_eq_true, Nat.blt_eq] at hclears
      rw [foldCodeBy]
      split
      · rfl
      · rename_i hge
        rcases hclears with hbefore | ⟨hmisses, hclears⟩
        · exact absurd (hle.trans_lt hbefore) hge
        · rw [covers_eq_false hlands hmisses h, if_neg Bool.false_ne_true]
          exact foldCodeBy_shift hlands h hclears

end FoldRun

theorem foldRuns_land : (foldRuns.all FoldRun.lands) = true := by
  decide +kernel

/-- **No run of the table folds to a code point that any run displaces.** -/
theorem foldRuns_settle : (foldRuns.all fun r => r.clears foldRuns) = true := by
  decide +kernel

/-! ## Characters -/

/-- A code point is displaced by a run that covers it, or it stays. -/
theorem foldCodeBy_cases (runs : List FoldRun) (code : ℕ) :
    foldCodeBy runs code = code ∨
      ∃ r ∈ runs, r.covers code = true ∧ foldCodeBy runs code = (code + r.shift).toNat := by
  induction runs with
  | nil => exact .inl rfl
  | cons r runs ih =>
      rw [foldCodeBy]
      split
      · exact .inl rfl
      · split
        · rename_i hcovers
          exact .inr ⟨r, List.mem_cons_self, hcovers, rfl⟩
        · rcases ih with hsame | ⟨other, hmem, hcovers, hfold⟩
          · exact .inl hsame
          · exact .inr ⟨other, List.mem_cons_of_mem _ hmem, hcovers, hfold⟩

theorem isValidChar_foldCode {code : ℕ} (h : code.isValidChar) : (foldCode code).isValidChar := by
  rw [foldCode]
  rcases foldCodeBy_cases foldRuns code with hsame | ⟨r, hr, hcovers, hfold⟩
  · rwa [hsame]
  · rw [hfold]
    exact FoldRun.isValidChar_shift (List.all_eq_true.mp foldRuns_land r hr) hcovers

theorem foldCode_foldCode (code : ℕ) : foldCode (foldCode code) = foldCode code := by
  rw [foldCode, foldCode]
  rcases foldCodeBy_cases foldRuns code with hsame | ⟨r, hr, hcovers, hfold⟩
  · rw [hsame, hsame]
  · rw [hfold]
    exact FoldRun.foldCodeBy_shift (List.all_eq_true.mp foldRuns_land r hr) hcovers
      (List.all_eq_true.mp foldRuns_settle r hr)

theorem toNat_foldChar (c : Char) : (foldChar c).toNat = foldCode c.toNat := by
  have hvalid : (foldCode c.toNat).isValidChar := isValidChar_foldCode c.valid
  rw [foldChar, Char.ofNat, dif_pos hvalid]
  rfl

theorem foldChar_foldChar (c : Char) : foldChar (foldChar c) = foldChar c := by
  rw [foldChar, toNat_foldChar, foldCode_foldCode]
  rfl

/-! ## Texts -/

/-- The lower-case mapping of a character: one character, but for the dotted capital I, which
keeps its dot as a character of its own. -/
def lowerCase (c : Char) : List Char :=
  if c = '\u0130' then ['i', '\u0307'] else [foldChar c]

section

variable (s t : String)

theorem toList_fold : (fold s).toList = s.toList.map foldChar := String.toList_ofList

/-- A text is folded as its characters are put in lower case, once every dotted capital I has
become a plain i. -/
theorem fold_eq_flatMap_lowerCase : fold s = String.ofList
    (s.toList.flatMap fun c => lowerCase (if c = '\u0130' then 'i' else c)) := by
  have hone : ∀ c, lowerCase (if c = '\u0130' then 'i' else c) = [foldChar c] := by
    intro c
    by_cases hc : c = '\u0130'
    · subst hc
      decide +kernel
    · simp [lowerCase, hc]
  simp only [hone, fold]
  rw [List.map_eq_flatMap]

theorem length_fold : (fold s).length = s.length := by
  rw [← String.length_toList, toList_fold, List.length_map, String.length_toList]

theorem fold_fold : fold (fold s) = fold s := by
  apply String.toList_inj.mp
  rw [toList_fold, toList_fold, List.map_map]
  exact List.map_congr_left fun c _ => foldChar_foldChar c

theorem fold_append : fold (s ++ t) = fold s ++ fold t := by
  rw [fold, String.toList_append, List.map_append, String.ofList_append]
  rfl

theorem fold_eq_self_iff : fold s = s ↔ ∀ c ∈ s.toList, foldChar c = c := by
  rw [← String.toList_inj, toList_fold]
  constructor
  · intro h
    rw [← List.map_id s.toList, List.map_map] at h
    exact List.map_inj_left.mp h
  · intro h
    rw [List.map_congr_left (g := id) h, List.map_id]

end

/-- Both texts folded. -/
def folded (a : Account) : Account := ⟨a.foldedLogin, a.foldedEmail⟩

/-- The logins fold alike, and the emails do. -/
def SameFolds (a b : Account) : Prop :=
  a.foldedLogin = b.foldedLogin ∧ a.foldedEmail = b.foldedEmail

theorem sameFolds_folded (a : Account) : a.SameFolds a.folded :=
  ⟨(fold_fold a.login).symm, (fold_fold a.email).symm⟩

theorem isPlain_folded (a : Account) : a.folded.isPlain = true :=
  (isPlain_iff _).mpr (.inl (fold_fold a.email).symm)

end Account

/-! ## Censuses -/

theorem loginsBehind_of_sameFolds {xs ys : List Account}
    (h : List.Forall₂ Account.SameFolds xs ys) (known : Finset String) :
    loginsBehind known xs = loginsBehind known ys := by
  induction h generalizing known with
  | nil => rfl
  | cons hab _ ih => rw [loginsBehind, loginsBehind, hab.1, hab.2, ih, ih]

theorem duplicates_eq_of_sameFolds {xs ys : List Account}
    (h : List.Forall₂ Account.SameFolds xs ys) :
    (tally xs).duplicates = (tally ys).duplicates := by
  have hxs := duplicates_add_loginsBehind xs
  have hys := duplicates_add_loginsBehind ys
  rw [loginsBehind_of_sameFolds h, h.length_eq] at hxs
  omega

open Account in
/-- **Folding is stable, character by character.** A text is folded by putting its characters in
lower case, a dotted capital I taken for a plain i; so it keeps its length, parts are folded by
themselves, what is folded stays as it is, and a text is its own fold exactly if each of its
characters is. Accounts that fold alike give the same duplicates, and so do the folded accounts,
all of which are mixed-cased. -/
theorem folding_is_stable :
    (∀ s : String,
      fold s = String.ofList
        (s.toList.flatMap fun c => lowerCase (if c = '\u0130' then 'i' else c)) ∧
      (fold s).length = s.length ∧
      fold (fold s) = fold s ∧
      (∀ t, fold (s ++ t) = fold s ++ fold t) ∧
      (fold s = s ↔ ∀ c ∈ s.toList, fold (String.singleton c) = String.singleton c)) ∧
    (∀ xs ys : List Account,
      List.Forall₂ (fun a b => fold a.login = fold b.login ∧ fold a.email = fold b.email) xs ys →
      (tally xs).duplicates = (tally ys).duplicates) ∧
    ∀ accounts : List Account,
      (tally (accounts.map folded)).duplicates = (tally accounts).duplicates ∧
      (tally (accounts.map folded)).mixedCased = accounts.length := by
  refine ⟨fun s => ⟨fold_eq_flatMap_lowerCase s, length_fold s, fold_fold s, fold_append s, ?_⟩,
    fun xs ys => duplicates_eq_of_sameFolds, fun accounts => ⟨?_, ?_⟩⟩
  · simp [fold_eq_self_iff]
  · refine (duplicates_eq_of_sameFolds ?_).symm
    rw [List.forall₂_map_right_iff, List.forall₂_same]
    exact fun a _ => sameFolds_folded a
  · rw [mixedCased_eq_countP, List.countP_map, List.countP_eq_length]
    intro a _
    rw [Function.comp_apply, isPlain_folded]

/-- A final sigma, a dotted capital I and the Kelvin sign fold like any other sigma, i and k. -/
theorem sigmas_and_dots_collide :
    let xs : List Account := [⟨"ΟΔΥΣΣΕΥΣ", "İ@x"⟩, ⟨"οδυσσευσ", "K@x"⟩, ⟨"k", "\u212a@X"⟩]
    let ys : List Account := [⟨"οδυσσευσ", "i@x"⟩, ⟨"ΟΔΥΣΣΕΥΣ", "k@X"⟩, ⟨"\u212a", "K@x"⟩]
    List.Forall₂ (fun a b : Account => Account.fold a.login = Account.fold b.login ∧
      Account.fold a.email = Account.fold b.email) xs ys ∧
    (tally ys).duplicates = 2 ∧ (tally xs).duplicates = (tally ys).duplicates := by
  intro xs ys
  have hfolds : List.Forall₂ (fun a b : Account => Account.fold a.login = Account.fold b.login ∧
      Account.fold a.email = Account.fold b.email) xs ys :=
    .cons (by decide +kernel) (.cons (by decide +kernel) (.cons (by decide +kernel) .nil))
  exact ⟨hfolds, by decide +kernel, folding_is_stable.2.1 xs ys hfolds⟩

end AccountCensus
