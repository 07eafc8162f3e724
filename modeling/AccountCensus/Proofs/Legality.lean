import AccountCensus.Proofs.Components
import AccountCensus.Settings.Load
import Mathlib.Data.List.Nodup

/-!
# Legal settings and their violations

`Legal` says what settings have to be, `Breaks` what each violation stands for; neither mentions
how settings are checked. `validate` accepts exactly the legal ones, and what it reports of others
is every rule that is broken, once and in a fixed order: `mem_violations_iff` and
`violations_pairwise` are the two halves of that. Loading validates what a document has, so that a
text gives legal settings or none (`parse_eq_ok`).

That a directory exists is told by an arbitrary predicate on paths.
-/

namespace AccountCensus.Settings

/-! ## Rules -/

/-- A database can be at this path: in memory, or where no directory is needed, or in one that
exists. -/
def HasPlace (existing : String → Bool) (path : String) : Prop :=
  path = Path.inMemory ∨ Path.RootAlone path.toList ∨ Path.Parent path.toList [] ∨
    ∃ parent : String, Path.Parent path.toList parent.toList ∧ existing parent = true

structure Legal (existing : String → Bool) (s : Settings) : Prop where
  interval : 0 < s.stats.collectionInterval
  timeout : 0 < s.stats.fetchTimeout
  path : s.database.path ≠ ""
  place : HasPlace existing s.database.path

/-- The settings break the rule that a violation names. -/
def Breaks (existing : String → Bool) (s : Settings) : Violation → Prop
  | .zeroInterval => s.stats.collectionInterval = 0
  | .zeroTimeout => s.stats.fetchTimeout = 0
  | .noDatabasePath => s.database.path = ""
  | .noParentDirectory path =>
    path = s.database.path ∧ path ≠ "" ∧ ¬ HasPlace existing path

/-- Violations are reported in this order. -/
def Violation.rank : Violation → ℕ
  | zeroInterval => 0
  | zeroTimeout => 1
  | noDatabasePath | noParentDirectory _ => 2

/-- It is the path that is wrong. -/
def Violation.isOfPath : Violation → Bool
  | noDatabasePath | noParentDirectory _ => true
  | _ => false

section Rules

variable {existing : String → Bool} {path : String}

theorem hasDirectory_iff (hpath : path ≠ "") : hasDirectory existing path = true ↔
    Path.RootAlone path.toList ∨ Path.Parent path.toList [] ∨
      ∃ parent : String, Path.Parent path.toList parent.toList ∧ existing parent = true := by
  have hempty : Path.parent? path = some "" ↔ Path.Parent path.toList [] :=
    Path.parent?_eq_some_iff
  have hroot : Path.parent? path = none ↔ Path.RootAlone path.toList := by
    simp [Path.parent?_eq_none_iff, hpath]
  have hparent : ∀ p : String, Path.Parent path.toList p.toList ↔ Path.parent? path = some p :=
    fun p => Path.parent?_eq_some_iff.symm
  simp only [← hempty, ← hroot, hparent]
  unfold hasDirectory
  cases Path.parent? path <;> simp

theorem hasDirectory_inMemory : hasDirectory existing Path.inMemory = true := by
  have hparent : Path.parent? Path.inMemory = some "" := by decide +kernel
  simp [hasDirectory, hparent]

theorem hasDirectory_iff_hasPlace (hpath : path ≠ "") :
    hasDirectory existing path = true ↔ HasPlace existing path := by
  rw [HasPlace, ← hasDirectory_iff hpath]
  constructor
  · exact .inr
  · rintro (rfl | h)
    · exact hasDirectory_inMemory
    · exact h

/-- That a database is in memory makes no difference: its path needs no directory anyway. -/
theorem pathViolations_eq (hpath : path ≠ "") : pathViolations existing path =
    if hasDirectory existing path then [] else [.noParentDirectory path] := by
  by_cases hmemory : path = Path.inMemory
  · obtain rfl := hmemory
    simp [pathViolations, hpath, hasDirectory_inMemory]
  · simp [pathViolations, hpath, hmemory]

theorem mem_pathViolations_iff {s : Settings} {v : Violation} :
    v ∈ pathViolations existing s.database.path ↔ v.isOfPath = true ∧ Breaks existing s v := by
  by_cases hpath : s.database.path = ""
  · rw [pathViolations, if_pos hpath]
    cases v with
    | noParentDirectory p =>
        have : ¬ (p = s.database.path ∧ p ≠ "" ∧ ¬ HasPlace existing p) := by
          rintro ⟨rfl, hne, -⟩
          exact hne hpath
        simp [Violation.isOfPath, Breaks, this]
    | _ => simp [Violation.isOfPath, Breaks, hpath]
  · rw [pathViolations_eq hpath]
    cases v with
    | noParentDirectory p =>
        by_cases hp : p = s.database.path
        · obtain rfl := hp
          simp [Violation.isOfPath, Breaks, hpath, ← hasDirectory_iff_hasPlace hpath]
        · simp [Violation.isOfPath, Breaks, hp]
    | _ => simp [Violation.isOfPath, Breaks, hpath]

end Rules

/-! ## Reports -/

variable (existing : String → Bool) (s : Settings)

/-- **What is reported is broken, and what is broken is reported.** -/
theorem mem_violations_iff {v : Violation} : v ∈ violations existing s ↔ Breaks existing s v := by
  unfold violations
  rw [List.mem_append, List.mem_append, mem_pathViolations_iff]
  cases v <;> simp [Violation.isOfPath, Breaks]

/-- What is reported of the cadence. -/
def cadenceViolations (s : Stats) : List Violation :=
  (if s.collectionInterval = 0 then [.zeroInterval] else []) ++
    (if s.fetchTimeout = 0 then [.zeroTimeout] else [])

theorem violations_eq : violations existing s =
    cadenceViolations s.stats ++ pathViolations existing s.database.path := rfl

theorem rank_of_cadence {s : Stats} : ∀ v ∈ cadenceViolations s, v.rank < 2 := by
  intro v hv
  rcases List.mem_append.mp hv with hv | hv
  · split at hv <;> simp_all [Violation.rank]
  · split at hv <;> simp_all [Violation.rank]

theorem rank_eq_two_iff {v : Violation} : v.rank = 2 ↔ v.isOfPath = true := by
  cases v <;> simp [Violation.rank, Violation.isOfPath]

/-- **Each violation is reported once and in its place.** -/
theorem violations_pairwise :
    (violations existing s).Pairwise fun v w => v.rank < w.rank := by
  have hcadence : (cadenceViolations s.stats).Pairwise fun v w => v.rank < w.rank := by
    unfold cadenceViolations
    split <;> split <;> simp [Violation.rank]
  have hpath : (pathViolations existing s.database.path).Pairwise fun v w => v.rank < w.rank := by
    unfold pathViolations
    split
    · simp
    · split <;> simp
  rw [violations_eq, List.pairwise_append]
  refine ⟨hcadence, hpath, fun v hv w hw => ?_⟩
  rw [rank_eq_two_iff.mpr (mem_pathViolations_iff.mp hw).1]
  exact rank_of_cadence v hv

/-- Two violations of the path would have the same rank. -/
theorem countP_isOfPath_le_one : (violations existing s).countP Violation.isOfPath ≤ 1 := by
  have hfilter := (violations_pairwise existing s).filter Violation.isOfPath
  rw [List.countP_eq_length_filter]
  match hvs : (violations existing s).filter Violation.isOfPath with
  | [] => simp
  | [_] => simp
  | v :: w :: vs =>
      have hrank : ∀ u ∈ v :: w :: vs, u.rank = 2 := by
        intro u hu
        rw [← hvs] at hu
        exact rank_eq_two_iff.mpr (List.mem_filter.mp hu).2
      rw [hvs] at hfilter
      have hlt := (List.pairwise_cons.mp hfilter).1 w List.mem_cons_self
      rw [hrank v List.mem_cons_self, hrank w (List.mem_cons_of_mem _ List.mem_cons_self)] at hlt
      exact absurd hlt (Nat.lt_irrefl _)

theorem legal_iff : Legal existing s ↔ ∀ v, ¬ Breaks existing s v := by
  constructor
  · intro h v hv
    cases v with
    | zeroInterval => exact Nat.ne_of_gt h.interval hv
    | zeroTimeout => exact Nat.ne_of_gt h.timeout hv
    | noDatabasePath => exact h.path hv
    | noParentDirectory p =>
        obtain ⟨rfl, -, hplace⟩ := hv
        exact hplace h.place
  · intro h
    have hpath : s.database.path ≠ "" := h .noDatabasePath
    refine ⟨Nat.pos_of_ne_zero (h .zeroInterval), Nat.pos_of_ne_zero (h .zeroTimeout), hpath, ?_⟩
    by_contra hplace
    exact h (.noParentDirectory _) ⟨rfl, hpath, hplace⟩

theorem violations_eq_nil_iff : violations existing s = [] ↔ Legal existing s := by
  simp only [legal_iff, ← mem_violations_iff, List.eq_nil_iff_forall_not_mem]

theorem validate_eq : validate existing s =
    if violations existing s = [] then .ok s else .error (violations existing s) := by
  unfold validate
  split
  · rename_i h
    rw [if_pos h]
  · rename_i h
    rw [if_neg h]

/-- What is reported of settings; nothing if they are accepted. -/
def reported : List Violation :=
  match validate existing s with
  | .ok _ => []
  | .error vs => vs

theorem reported_eq : reported existing s = violations existing s := by
  rw [reported, validate_eq]
  by_cases h : violations existing s = []
  · rw [if_pos h, h]
  · rw [if_neg h]

/-! ## Loading -/

/-- What becomes of a document whose text was read. -/
def settled (existing : String → Bool) (text : String)
    (es : List (String × Toml.Span × Toml.Value)) : Except LoadError Settings :=
  match ofEntries es with
  | .error m => .error (.shape text m)
  | .ok s => (validate existing s).mapError .invalid

theorem parse_eq_settled {existing : String → Bool} {text : String}
    {es : List (String × Toml.Span × Toml.Value)} (h : Toml.parse text = some es) :
    parse existing text = settled existing text es := by
  rw [parse, h]
  rfl

theorem settled_eq_ok {existing : String → Bool} {text : String}
    {es : List (String × Toml.Span × Toml.Value)} {s : Settings} :
    settled existing text es = .ok s ↔ ofEntries es = .ok s ∧ Legal existing s := by
  rw [← violations_eq_nil_iff]
  unfold settled
  cases ofEntries es with
  | error m => simp
  | ok s' =>
      show (validate existing s').mapError LoadError.invalid = .ok s ↔ _
      rw [validate_eq, Except.ok.injEq]
      by_cases hnil : violations existing s' = []
      · rw [if_pos hnil]
        constructor
        · intro h
          obtain rfl : s' = s := Except.ok.inj h
          exact ⟨rfl, hnil⟩
        · rintro ⟨rfl, -⟩
          rfl
      · rw [if_neg hnil]
        constructor
        · intro h
          cases h
        · rintro ⟨rfl, h⟩
          exact absurd h hnil

/-- **Settings that are loaded are those of a document, and legal.** -/
theorem parse_eq_ok {existing : String → Bool} {text : String} {s : Settings} :
    parse existing text = .ok s ↔
      ∃ es, Toml.parse text = some es ∧ ofEntries es = .ok s ∧ Legal existing s := by
  constructor
  · intro h
    cases hes : Toml.parse text with
    | none =>
        rw [parse, hes] at h
        cases h
    | some es =>
        rw [parse_eq_settled hes] at h
        exact ⟨es, rfl, settled_eq_ok.mp h⟩
  · rintro ⟨es, hes, h⟩
    rw [parse_eq_settled hes]
    exact settled_eq_ok.mpr h

/-! ## The database at another path -/

/-- The same settings with another path. -/
def withDatabaseAt (s : Settings) (path : String) : Settings := { s with database := { path } }

/-- The same path, perhaps with a slash, or a slash and a point, at its end. -/
def spellings (path : String) : List String := [path, path ++ "/", path ++ "/."]

theorem hasDirectory_congr {p q : String} (h : Path.parent? p = Path.parent? q) :
    hasDirectory existing p = hasDirectory existing q := by
  unfold hasDirectory
  rw [h]

/-- **All spellings of a path get one verdict.** -/
theorem pathViolations_of_spelling {path p : String} (hpath : path ≠ "")
    (hp : p ∈ spellings path) : pathViolations existing p =
      if hasDirectory existing path then [] else [.noParentDirectory p] := by
  have hparent : p ≠ "" ∧ Path.parent? p = Path.parent? path := by
    simp only [spellings, List.mem_cons, List.not_mem_nil, or_false] at hp
    rcases hp with rfl | rfl | rfl
    · exact ⟨hpath, rfl⟩
    · exact ⟨fun h => by simpa using congrArg String.toList h, Path.parent?_slash hpath⟩
    · exact ⟨fun h => by simpa using congrArg String.toList h, Path.parent?_slash_point hpath⟩
  rw [pathViolations_eq hparent.1, hasDirectory_congr existing hparent.2]

theorem reported_withDatabaseAt (path : String) : reported existing (s.withDatabaseAt path) =
    cadenceViolations s.stats ++ pathViolations existing path := by
  rw [reported_eq, violations_eq]
  rfl

/-- **Settings are accepted exactly if they are legal, and otherwise every rule that they break is
reported**: each once, interval before time-out before path, and never two for the path. The
spellings of a path with a slash, or a slash and a point, at its end get the same verdict, each
under its own name. -/
theorem every_violation_is_reported (existing : String → Bool) (s : Settings) :
    (validate existing s = .ok s ↔ Legal existing s) ∧
    (¬ Legal existing s → ∃ vs, validate existing s = .error vs ∧
      (∀ v, v ∈ vs ↔ Breaks existing s v) ∧ vs.Pairwise (fun v w => v.rank < w.rank) ∧
      vs.Nodup ∧ vs.countP Violation.isOfPath ≤ 1) ∧
    (s.database.path ≠ "" → ∃ others : List Violation, (∀ v ∈ others, v.isOfPath = false) ∧
      ((∀ p ∈ spellings s.database.path, reported existing (s.withDatabaseAt p) = others) ∨
        ∀ p ∈ spellings s.database.path,
          reported existing (s.withDatabaseAt p) = others ++ [.noParentDirectory p])) := by
  refine ⟨?_, fun hlegal => ?_, fun hpath => ?_⟩
  · rw [← violations_eq_nil_iff, validate_eq]
    split <;> simp_all
  · have hsome : violations existing s ≠ [] := mt (violations_eq_nil_iff existing s).mp hlegal
    have hpairwise := violations_pairwise existing s
    refine ⟨violations existing s, by rw [validate_eq, if_neg hsome],
      fun v => mem_violations_iff existing s, hpairwise, ?_, countP_isOfPath_le_one existing s⟩
    refine hpairwise.imp ?_
    rintro v w hlt rfl
    exact Nat.lt_irrefl _ hlt
  · have hcadence : ∀ v ∈ cadenceViolations s.stats, v.isOfPath = false := by
      intro v hv
      have hlt := rank_of_cadence v hv
      rw [← Bool.not_eq_true, ← rank_eq_two_iff]
      omega
    refine ⟨cadenceViolations s.stats, hcadence, ?_⟩
    cases hdirectory : hasDirectory existing s.database.path with
    | true =>
        refine .inl fun p hp => ?_
        rw [reported_withDatabaseAt, pathViolations_of_spelling existing hpath hp, hdirectory]
        exact List.append_nil _
    | false =>
        refine .inr fun p hp => ?_
        rw [reported_withDatabaseAt, pathViolations_of_spelling existing hpath hp, hdirectory]
        rfl

/-- Where only the root and `nodir` exist, an interval of zero and a file behind `nodir/..` are
reported together, however the path ends. -/
theorem zero_interval_and_no_directory :
    let existing : String → Bool := fun path => path == "/" || path == "nodir"
    let s : Settings :=
      { database := { path := "nodir//.././x.db" }, stats := { collectionInterval := 0 } }
    ¬ Legal existing s ∧
      (∃ vs, validate existing s = .error vs ∧ Violation.zeroInterval ∈ vs ∧
        Violation.noParentDirectory "nodir//.././x.db" ∈ vs) ∧
      s.database.path ≠ "" ∧
      ∀ p ∈ spellings s.database.path, reported existing (s.withDatabaseAt p) =
        [.zeroInterval, .noParentDirectory p] := by
  intro existing s
  have hviolations : violations existing s =
      [.zeroInterval, .noParentDirectory "nodir//.././x.db"] := by
    decide +kernel
  have hlegal : ¬ Legal existing s := by
    rw [← violations_eq_nil_iff, hviolations]
    simp
  have hpath : s.database.path ≠ "" := by
    decide
  obtain ⟨-, hreport, hspellings⟩ := every_violation_is_reported existing s
  obtain ⟨vs, hvs, hmem, -⟩ := hreport hlegal
  have hbreaks : ∀ v ∈ [Violation.zeroInterval, .noParentDirectory "nodir//.././x.db"],
      Breaks existing s v := by
    intro v hv
    rwa [← mem_violations_iff, hviolations]
  refine ⟨hlegal, ⟨vs, hvs, (hmem _).mpr (hbreaks _ (by simp)),
    (hmem _).mpr (hbreaks _ (by simp))⟩, hpath, ?_⟩
  obtain ⟨others, hothers, hsame⟩ := hspellings hpath
  have hown : reported existing (s.withDatabaseAt s.database.path) =
      [.zeroInterval, .noParentDirectory s.database.path] := by
    rw [reported_eq]
    exact hviolations
  have hmem : s.database.path ∈ spellings s.database.path := List.mem_cons_self
  rcases hsame with hsame | hsame
  · -- the verdict for the path itself does have a violation of the path
    have hlast := hothers (.noParentDirectory s.database.path)
      (by rw [← hsame _ hmem, hown]; simp)
    cases hlast
  · obtain rfl : others = [.zeroInterval] := by
      have := (hsame _ hmem).symm.trans hown
      exact List.append_cancel_right this
    exact hsame

end AccountCensus.Settings
