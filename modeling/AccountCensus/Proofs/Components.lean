import AccountCensus.Path
import Mathlib.Data.List.Basic

/-!
# The components of a path

`componentEnds` walks through a path once and notes where its components end. `Component` says what
the components are without walking: the root, a leading point, and the pieces between slashes that
are neither empty nor a point. The walk finds the ends of just these (`mem_componentEnds`), in
ascending order (`componentEnds_pairwise`), so that `parent?` is what `Parent` says it is
(`parent?_eq_some_iff`, `parent?_eq_none_iff`).

Slashes and points at the end of a path add no component, hence the parent stays the same
(`parent?_slash`, `parent?_slash_point`).
-/

namespace AccountCensus.Path

/-! ## Components -/

/-- A piece of a path: what stands between two slashes, or a slash and an end of the path. -/
structure Piece (path before text after : List Char) : Prop where
  split : path = before ++ text ++ after
  slashless : '/' ∉ text
  front : before = [] ∨ ∃ b, before = b ++ ['/']
  back : after = [] ∨ ∃ a, after = '/' :: a

/-- A component reaches from one position of a path to another. -/
inductive Component (path : List Char) : ℕ → ℕ → Prop
  | root {rest : List Char} : path = '/' :: rest → Component path 0 1
  | leadingPoint {after : List Char} : Piece path [] ['.'] after → Component path 0 1
  | piece {before text after : List Char} : Piece path before text after → text ≠ [] →
      text ≠ ['.'] → Component path before.length (before.length + text.length)

/-- A piece behind another text is a component unless it is empty or a point; at the very front a
point is one too. -/
def Counts (before text : List Char) : Prop := text ≠ [] ∧ (text = ['.'] → before = [])

theorem Component.of_counts {path before text after : List Char}
    (h : Piece path before text after) (hc : Counts before text) :
    Component path before.length (before.length + text.length) := by
  by_cases hpoint : text = ['.']
  · obtain rfl := hpoint
    obtain rfl := hc.2 rfl
    exact .leadingPoint h
  · exact .piece h hc.1 hpoint

/-! ## Where the walk stands -/

/-- What a text has before its first slash. -/
theorem takeWhile_piece {text after : List Char} (ht : '/' ∉ text)
    (ha : after = [] ∨ ∃ a, after = '/' :: a) : (text ++ after).takeWhile (· ≠ '/') = text := by
  have hall : ∀ c ∈ text, decide (c ≠ '/') = true := by
    intro c hc
    have hne : c ≠ '/' := fun heq => ht (heq ▸ hc)
    simpa using hne
  rw [List.takeWhile_append_of_pos hall]
  rcases ha with rfl | ⟨a, rfl⟩ <;> simp

/-- A piece that begins within the slashless text that another one begins with is that one. -/
theorem Piece.eq_of_le {path done piece rest before text after : List Char}
    (h : Piece path done piece rest) (h' : Piece path before text after)
    (hge : done.length ≤ before.length) (hle : before.length ≤ done.length + piece.length) :
    before = done ∧ text = piece := by
  have heq : before ++ (text ++ after) = done ++ (piece ++ rest) := by
    rw [← List.append_assoc, ← List.append_assoc, ← h.split, ← h'.split]
  obtain ⟨x, rfl, hx⟩ : ∃ x, before = done ++ x ∧ piece ++ rest = x ++ (text ++ after) := by
    rcases List.append_eq_append_iff.mp heq with ⟨x, rfl, hx⟩ | ⟨x, rfl, hx⟩
    · have hnil : x = [] := List.length_eq_zero_iff.mp (by rw [List.length_append] at hge; omega)
      exact ⟨[], by simp [hnil], by simpa [hnil] using hx.symm⟩
    · exact ⟨x, rfl, hx⟩
  -- a slash before the later piece would stand within the earlier one
  have hnil : x = [] := by
    by_contra hne
    have hbegin : x <+: piece :=
      List.prefix_of_prefix_length_le ⟨_, hx.symm⟩ ⟨rest, rfl⟩
        (by rw [List.length_append] at hle; omega)
    rcases h'.front with hb | ⟨b, hb⟩
    · exact hne (List.append_eq_nil_iff.mp hb).2
    · have hlast := congrArg List.getLast? hb
      rw [List.getLast?_append_of_ne_nil _ hne, List.getLast?_concat] at hlast
      have hmem : '/' ∈ x := List.mem_of_getLast? hlast
      exact h.slashless (hbegin.subset hmem)
  subst hnil
  refine ⟨by simp, ?_⟩
  rw [← takeWhile_piece h'.slashless h'.back, ← takeWhile_piece h.slashless h.back, hx]
  rfl

theorem endsFrom_char {c : Char} (hc : c ≠ '/') (position : ℕ) (first : Bool)
    (piece rest : List Char) : endsFrom position first piece (c :: rest) =
      endsFrom (position + 1) first (piece ++ [c]) rest := by
  rw [endsFrom]
  exact hc

/-- The walk has passed `done`, is within `piece`, and has `rest` before it. -/
structure Walk (path done piece rest : List Char) (first : Bool) : Prop where
  split : path = done ++ piece ++ rest
  slashless : '/' ∉ piece
  front : if first then done = [] else ∃ b, done = b ++ ['/']

section Walk

variable {path done piece rest : List Char} {first : Bool}
  (h : Walk path done piece rest first)
include h

theorem Walk.done_eq_nil_iff : done = [] ↔ first = true := by
  have hfront := h.front
  cases first with
  | true => simpa using hfront
  | false =>
      obtain ⟨b, rfl⟩ := hfront
      simp

theorem Walk.closes (hrest : rest = [] ∨ ∃ a, rest = '/' :: a) : Piece path done piece rest := by
  refine ⟨h.split, h.slashless, ?_, hrest⟩
  have hfront := h.front
  cases first with
  | true => exact .inl (by simpa using hfront)
  | false => exact .inr (by simpa using hfront)

/-- A piece is closed with its end if it is a component. -/
theorem Walk.mem_close {position j : ℕ} :
    j ∈ endsFrom.close position first piece ↔ Counts done piece ∧ j = position := by
  unfold endsFrom.close Counts
  rw [h.done_eq_nil_iff]
  by_cases hnil : piece = []
  · simp [hnil]
  · by_cases hpoint : piece = ['.']
    · cases first <;> simp [hpoint]
    · simp [hnil, hpoint]

end Walk

theorem Walk.over_slash {path done piece rest : List Char} {first : Bool}
    (h : Walk path done piece ('/' :: rest) first) :
    Walk path (done ++ piece ++ ['/']) [] rest false :=
  ⟨by simp [h.split], by simp, ⟨done ++ piece, rfl⟩⟩

theorem Walk.over_char {path done piece rest : List Char} {first : Bool} {c : Char}
    (h : Walk path done piece (c :: rest) first) (hc : c ≠ '/') :
    Walk path done (piece ++ [c]) rest first := by
  refine ⟨by simp [h.split], ?_, h.front⟩
  simp only [List.mem_append, List.mem_singleton, not_or]
  exact ⟨h.slashless, hc.symm⟩

/-- **The walk notes the ends of the components that are still before it.** -/
theorem Walk.mem_endsFrom {path done piece rest : List Char} {first : Bool} {position : ℕ}
    (h : Walk path done piece rest first) (hposition : position = done.length + piece.length)
    (j : ℕ) :
    j ∈ endsFrom position first piece rest ↔ ∃ before text after, Piece path before text after ∧
      Counts before text ∧ done.length ≤ before.length ∧ j = before.length + text.length := by
  induction rest generalizing done piece first position with
  | nil =>
      rw [endsFrom, h.mem_close]
      constructor
      · rintro ⟨hcounts, rfl⟩
        exact ⟨done, piece, [], h.closes (.inl rfl), hcounts, Nat.le_refl _, hposition⟩
      · rintro ⟨before, text, after, hpiece, hcounts, hge, rfl⟩
        have hlen : before.length ≤ done.length + piece.length := by
          have := congrArg List.length (hpiece.split.symm.trans h.split)
          simp only [List.length_append, List.length_nil] at this
          omega
        obtain ⟨rfl, rfl⟩ := (h.closes (.inl rfl)).eq_of_le hpiece hge hlen
        exact ⟨hcounts, hposition.symm⟩
  | cons c rest ih =>
      by_cases hc : c = '/'
      · obtain rfl := hc
        have hclosed := h.closes (.inr ⟨rest, rfl⟩)
        rw [endsFrom, List.mem_append, h.mem_close,
          ih h.over_slash (by simp [hposition, Nat.add_assoc])]
        constructor
        · rintro (⟨hcounts, rfl⟩ | ⟨before, text, after, hpiece, hcounts, hge, rfl⟩)
          · exact ⟨done, piece, _, hclosed, hcounts, Nat.le_refl _, hposition⟩
          · refine ⟨before, text, after, hpiece, hcounts, ?_, rfl⟩
            simp only [List.length_append] at hge
            omega
        · rintro ⟨before, text, after, hpiece, hcounts, hge, rfl⟩
          by_cases hle : before.length ≤ done.length + piece.length
          · obtain ⟨rfl, rfl⟩ := hclosed.eq_of_le hpiece hge hle
            exact .inl ⟨hcounts, hposition.symm⟩
          · refine .inr ⟨before, text, after, hpiece, hcounts, ?_, rfl⟩
            simp only [List.length_append, List.length_singleton]
            omega
      · rw [endsFrom_char hc]
        exact ih (h.over_char hc) (by simp [hposition, Nat.add_assoc])

theorem endsFrom_ge {position : ℕ} {first : Bool} {piece rest : List Char} :
    ∀ j ∈ endsFrom position first piece rest, position ≤ j ∧ (piece = [] → position < j) := by
  have hclose : ∀ {position : ℕ} {first : Bool} {piece : List Char},
      ∀ j ∈ endsFrom.close position first piece, j = position ∧ piece ≠ [] := by
    intro position first piece j hj
    unfold endsFrom.close at hj
    split at hj
    · cases hj
    · split at hj
      · cases hj
      · exact ⟨List.mem_singleton.mp hj, by assumption⟩
  induction rest generalizing position first piece with
  | nil =>
      intro j hj
      obtain ⟨rfl, hne⟩ := hclose j hj
      exact ⟨Nat.le_refl _, fun h => absurd h hne⟩
  | cons c rest ih =>
      intro j hj
      by_cases hc : c = '/'
      · obtain rfl := hc
        rcases List.mem_append.mp hj with hj | hj
        · obtain ⟨rfl, hne⟩ := hclose j hj
          exact ⟨Nat.le_refl _, fun h => absurd h hne⟩
        · have := (ih j hj).1
          exact ⟨by omega, fun _ => by omega⟩
      · rw [endsFrom_char hc] at hj
        have := (ih j hj).1
        exact ⟨by omega, fun _ => by omega⟩

theorem endsFrom_pairwise {position : ℕ} {first : Bool} {piece rest : List Char} :
    (endsFrom position first piece rest).Pairwise (· < ·) := by
  have hclose : ∀ {position : ℕ} {first : Bool} {piece : List Char},
      (endsFrom.close position first piece).Pairwise (· < ·) ∧
        ∀ j ∈ endsFrom.close position first piece, j = position := by
    intro position first piece
    unfold endsFrom.close
    split
    · simp
    · split <;> simp
  induction rest generalizing position first piece with
  | nil => exact hclose.1
  | cons c rest ih =>
      by_cases hc : c = '/'
      · obtain rfl := hc
        refine List.pairwise_append.mpr ⟨hclose.1, ih, fun i hi j hj => ?_⟩
        have hj := (endsFrom_ge j hj).1
        have hi := hclose.2 i hi
        omega
      · rw [endsFrom_char hc]
        exact ih

/-! ## The ends of all components -/

theorem componentEnds_slash (rest : List Char) :
    componentEnds ('/' :: rest) = 1 :: endsFrom 1 false [] rest := rfl

theorem componentEnds_slashless {path : List Char} (h : path.head? ≠ some '/') :
    componentEnds path = endsFrom 0 true [] path := by
  unfold componentEnds
  split
  · simp at h
  · rfl

/-- **The ends are noted in ascending order.** -/
theorem componentEnds_pairwise (path : List Char) : (componentEnds path).Pairwise (· < ·) := by
  by_cases h : path.head? = some '/'
  · obtain ⟨rest, rfl⟩ := List.head?_eq_some_iff.mp h
    rw [componentEnds_slash]
    exact List.pairwise_cons.mpr ⟨fun j hj => (endsFrom_ge j hj).2 rfl, endsFrom_pairwise⟩
  · rw [componentEnds_slashless h]
    exact endsFrom_pairwise

/-- **The ends that are noted are those of the components.** -/
theorem mem_componentEnds {path : List Char} {j : ℕ} :
    j ∈ componentEnds path ↔ ∃ i, Component path i j := by
  by_cases h : path.head? = some '/'
  · obtain ⟨rest, rfl⟩ := List.head?_eq_some_iff.mp h
    have hwalk : Walk ('/' :: rest) ['/'] [] rest false := ⟨rfl, by simp, ⟨[], rfl⟩⟩
    have hone : 1 = ['/'].length + ([] : List Char).length := rfl
    rw [componentEnds_slash, List.mem_cons, hwalk.mem_endsFrom hone]
    constructor
    · rintro (rfl | ⟨before, text, after, hpiece, hcounts, -, rfl⟩)
      · exact ⟨0, .root rfl⟩
      · exact ⟨_, .of_counts hpiece hcounts⟩
    · rintro ⟨i, hcomponent⟩
      cases hcomponent with
      | root _ => exact .inl rfl
      | leadingPoint hpiece => cases hpiece.split
      | @piece before text after hpiece hne hpoint =>
          refine .inr ⟨before, text, after, hpiece, ⟨hne, fun h => absurd h hpoint⟩, ?_, rfl⟩
          -- a piece at the very front would begin with the slash
          cases before with
          | cons c before => simp
          | nil =>
              cases text with
              | nil => exact absurd rfl hne
              | cons c text =>
                  obtain rfl : '/' = c := (List.cons.inj hpiece.split).1
                  exact absurd List.mem_cons_self hpiece.slashless
  · have hwalk : Walk path [] [] path true := ⟨by simp, by simp, rfl⟩
    have hzero : 0 = ([] : List Char).length + ([] : List Char).length := rfl
    rw [componentEnds_slashless h, hwalk.mem_endsFrom hzero]
    constructor
    · rintro ⟨before, text, after, hpiece, hcounts, -, rfl⟩
      exact ⟨_, .of_counts hpiece hcounts⟩
    · rintro ⟨i, hcomponent⟩
      cases hcomponent with
      | root heq => simp [heq] at h
      | leadingPoint hpiece => exact ⟨[], ['.'], _, hpiece, ⟨by simp, fun _ => rfl⟩, by simp, rfl⟩
      | piece hpiece hne hpoint =>
          exact ⟨_, _, _, hpiece, ⟨hne, fun h => absurd h hpoint⟩, by simp, rfl⟩

/-- A path that is not empty has a component. -/
theorem componentEnds_ne_nil {path : List Char} (h : path ≠ []) : componentEnds path ≠ [] := by
  have hfirst : ∀ {rest piece : List Char} {position : ℕ}, piece ≠ [] →
      endsFrom position true piece rest ≠ [] := by
    have hclose : ∀ {piece : List Char} {position : ℕ}, piece ≠ [] →
        endsFrom.close position true piece = [position] := by
      intro piece position hne
      simp [endsFrom.close, hne]
    intro rest
    induction rest with
    | nil =>
        intro piece position hne
        rw [endsFrom, hclose hne]
        simp
    | cons c rest ih =>
        intro piece position hne
        by_cases hc : c = '/'
        · obtain rfl := hc
          rw [endsFrom, hclose hne]
          simp
        · rw [endsFrom_char hc]
          exact ih (by simp)
  cases path with
  | nil => exact absurd rfl h
  | cons c rest =>
      by_cases hc : c = '/'
      · obtain rfl := hc
        simp [componentEnds_slash]
      · rw [componentEnds_slashless (by simpa using hc), endsFrom_char hc]
        exact hfirst (by simp)

/-- Components end within their path. -/
theorem Component.le_length {path : List Char} {i j : ℕ} (h : Component path i j) :
    j ≤ path.length := by
  cases h with
  | root heq => simp [heq]
  | leadingPoint hpiece => simp [hpiece.split]
  | piece hpiece _ _ =>
      have := congrArg List.length hpiece.split
      simp only [List.length_append] at this
      omega

/-! ## Slashes and points at the end -/

/-- A tail that closes no component but the one that it finds open adds none. -/
theorem endsFrom_append {tail : List Char}
    (htail : ∀ position first piece,
      endsFrom position first piece tail = endsFrom position first piece [])
    (position : ℕ) (first : Bool) (piece rest : List Char) :
    endsFrom position first piece (rest ++ tail) = endsFrom position first piece rest := by
  induction rest generalizing position first piece with
  | nil => exact htail position first piece
  | cons c rest ih =>
      by_cases hc : c = '/'
      · obtain rfl := hc
        rw [List.cons_append, endsFrom, endsFrom, ih]
      · rw [List.cons_append, endsFrom_char hc, endsFrom_char hc, ih]

theorem componentEnds_append {path tail : List Char} (hpath : path ≠ [])
    (htail : ∀ position first piece,
      endsFrom position first piece tail = endsFrom position first piece []) :
    componentEnds (path ++ tail) = componentEnds path := by
  cases path with
  | nil => exact absurd rfl hpath
  | cons c rest =>
      by_cases hc : c = '/'
      · obtain rfl := hc
        rw [List.cons_append, componentEnds_slash, componentEnds_slash, endsFrom_append htail]
      · have hfirst : ∀ cs : List Char, (c :: cs).head? ≠ some '/' := by simpa using hc
        rw [List.cons_append, componentEnds_slashless (hfirst _),
          componentEnds_slashless (hfirst _), ← List.cons_append, endsFrom_append htail]

/-! ## Parents -/

/-- The root is the only component. -/
def RootAlone (path : List Char) : Prop :=
  path.head? = some '/' ∧ ∀ i j, Component path i j → j = 1

/-- The parent of a path reaches to the end of its last but one component. It is empty if there is
only one, and that is not the root. -/
inductive Parent (path : List Char) : List Char → Prop
  | lastButOne {i j k l : ℕ} : Component path i j → Component path k l → j < l →
      (∀ m n, Component path m n → n ≤ j ∨ n = l) → Parent path (path.take j)
  | only {i j : ℕ} : Component path i j → path.head? ≠ some '/' →
      (∀ m n, Component path m n → n = j) → Parent path []

theorem Parent.unique {path p q : List Char} (hp : Parent path p) (hq : Parent path q) : p = q := by
  cases hp with
  | lastButOne hj hl hlt hall =>
      cases hq with
      | lastButOne hj' hl' hlt' hall' =>
          -- the last ends are equal, and then so are those before them
          have h₁ := hall _ _ hl'
          have h₂ := hall' _ _ hl
          have h₃ := hall _ _ hj'
          have h₄ := hall' _ _ hj
          congr 1
          omega
      | only _ _ hall' =>
          have := hall' _ _ hj
          have := hall' _ _ hl
          omega
  | only _ _ hall =>
      cases hq with
      | lastButOne hj' hl' hlt' _ =>
          have := hall _ _ hj'
          have := hall _ _ hl'
          omega
      | only _ _ _ => rfl

/-- Only a path that is empty or the root alone has no parent. -/
theorem Parent.not_root {path p : List Char} (h : Parent path p) :
    path ≠ [] ∧ ¬ RootAlone path := by
  have hne : ∀ {i j : ℕ}, Component path i j → path ≠ [] := by
    rintro i j hcomponent rfl
    have hmem := mem_componentEnds.mpr ⟨i, hcomponent⟩
    simp [componentEnds, endsFrom, endsFrom.close] at hmem
  cases h with
  | lastButOne hj hl hlt _ =>
      refine ⟨hne hj, fun hroot => ?_⟩
      have := hroot.2 _ _ hj
      have := hroot.2 _ _ hl
      omega
  | only hj hhead _ => exact ⟨hne hj, fun hroot => hhead hroot.1⟩

/-- What `parent?` gives is as it should be. -/
theorem parent?_spec (path : String) :
    (∃ p, parent? path = some p ∧ Parent path.toList p.toList) ∨
      parent? path = none ∧ (path.toList = [] ∨ RootAlone path.toList) := by
  have hmem : ∀ {j}, j ∈ (componentEnds path.toList).reverse ↔ ∃ i, Component path.toList i j := by
    intro j
    rw [List.mem_reverse, mem_componentEnds]
  have hsorted := List.pairwise_reverse.mpr (componentEnds_pairwise path.toList)
  unfold parent?
  dsimp only
  split
  · rename_i hnil
    refine .inr ⟨rfl, .inl ?_⟩
    by_contra hne
    exact componentEnds_ne_nil hne (List.reverse_eq_nil_iff.mp hnil)
  · rename_i l hone
    have hall : ∀ m n, Component path.toList m n → n = l := by
      intro m n hcomponent
      have := hmem.mpr ⟨m, hcomponent⟩
      rw [hone] at this
      exact List.mem_singleton.mp this
    by_cases hhead : path.toList.head? = some '/'
    · rw [if_pos hhead]
      obtain ⟨rest, hrest⟩ := List.head?_eq_some_iff.mp hhead
      obtain rfl := hall 0 1 (.root hrest)
      exact .inr ⟨rfl, .inr ⟨hhead, hall⟩⟩
    · rw [if_neg hhead]
      obtain ⟨i, hcomponent⟩ := hmem.mp (by rw [hone]; exact List.mem_singleton_self l)
      exact .inl ⟨"", rfl, .only hcomponent hhead hall⟩
  · rename_i l j rest hends
    rw [hends] at hsorted
    obtain ⟨hl, hsorted⟩ := List.pairwise_cons.mp hsorted
    obtain ⟨hj, -⟩ := List.pairwise_cons.mp hsorted
    obtain ⟨k, hlast⟩ := hmem.mp (by rw [hends]; exact List.mem_cons_self)
    obtain ⟨i, hbefore⟩ := hmem.mp
      (by rw [hends]; exact List.mem_cons_of_mem _ List.mem_cons_self)
    refine .inl ⟨_, rfl, ?_⟩
    rw [String.toList_ofList]
    refine .lastButOne hbefore hlast (hl j List.mem_cons_self) fun m n hcomponent => ?_
    have hn := hmem.mpr ⟨m, hcomponent⟩
    rw [hends] at hn
    rcases List.mem_cons.mp hn with rfl | hn
    · exact .inr rfl
    · rcases List.mem_cons.mp hn with rfl | hn
      · exact .inl (Nat.le_refl _)
      · exact .inl (Nat.le_of_lt (hj n hn))

/-- **The parent is the text up to the end of the last but one component.** -/
theorem parent?_eq_some_iff {path p : String} :
    parent? path = some p ↔ Parent path.toList p.toList := by
  rcases parent?_spec path with ⟨q, hq, hparent⟩ | ⟨hnone, hroot⟩
  · rw [hq]
    constructor
    · intro h
      rwa [← Option.some.inj h]
    · intro h
      rw [String.toList_inj.mp (hparent.unique h)]
  · rw [hnone]
    constructor
    · intro h
      cases h
    · intro h
      rcases hroot with hnil | hroot
      · exact absurd hnil h.not_root.1
      · exact absurd hroot h.not_root.2

/-- **Only the empty path and the root alone have no parent.** -/
theorem parent?_eq_none_iff {path : String} :
    parent? path = none ↔ path = "" ∨ RootAlone path.toList := by
  have hempty : path = "" ↔ path.toList = [] := by
    rw [← String.toList_inj]
    rfl
  rw [hempty]
  rcases parent?_spec path with ⟨q, hq, hparent⟩ | ⟨hnone, hroot⟩
  · obtain ⟨hne, hnot⟩ := hparent.not_root
    simp [hq, hne, hnot]
  · simp only [hnone, hroot]

theorem parent?_append {path tail : String} (hpath : path ≠ "")
    (htail : ∀ position first piece, endsFrom position first piece tail.toList =
      endsFrom position first piece []) :
    parent? (path ++ tail) = parent? path := by
  have hne : path.toList ≠ [] := by
    intro h
    exact hpath (String.toList_inj.mp h)
  have htext : (path ++ tail).toList = path.toList ++ tail.toList := String.toList_append
  unfold parent?
  dsimp only
  rw [htext, componentEnds_append hne htail, List.head?_append_of_ne_nil _ hne]
  split
  · rfl
  · rfl
  · rename_i l j rest hends
    have hj : j ∈ componentEnds path.toList := by
      rw [← List.mem_reverse, hends]
      exact List.mem_cons_of_mem _ List.mem_cons_self
    obtain ⟨i, hcomponent⟩ := mem_componentEnds.mp hj
    rw [List.take_append_of_le_length hcomponent.le_length]

/-- **A slash at the end changes no parent.** -/
theorem parent?_slash {path : String} (h : path ≠ "") : parent? (path ++ "/") = parent? path :=
  parent?_append h fun position first piece => by simp [endsFrom, endsFrom.close]

/-- **A slash and a point at the end change no parent.** -/
theorem parent?_slash_point {path : String} (h : path ≠ "") :
    parent? (path ++ "/.") = parent? path :=
  parent?_append h fun position first piece => by simp [endsFrom, endsFrom.close]

end AccountCensus.Path
