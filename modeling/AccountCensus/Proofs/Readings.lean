import AccountCensus.Proofs.Trees

/-!
# What readers give

A postcondition holds of every value that a reader takes off any text. It follows the reader: the
lemmas about `Gives` are one for each way of putting readers together. The readers of values give
valid trees only (`value_gives`), and with the tables that are built from them sound, a text that
is read as a document gives a valid tree (`parse_valid`).
-/

namespace AccountCensus.Toml

namespace Reader

/-- Whatever the reader takes off a text, the postcondition holds of it. -/
def Gives {α : Type} (r : Reader α) (P : α → Prop) : Prop :=
  ∀ cs a rest, r cs = some (a, rest) → P a

namespace Gives

variable {α β : Type} {r r' : Reader α} {P Q : α → Prop}

theorem trivial (r : Reader α) : Gives r fun _ => True := fun _ _ _ _ => True.intro

theorem mono (h : Gives r P) (hPQ : ∀ a, P a → Q a) : Gives r Q :=
  fun cs a rest hr => hPQ a (h cs a rest hr)

theorem pure {a : α} (h : P a) : Gives (Pure.pure a) P := by
  intro cs b rest hb
  obtain ⟨rfl, -⟩ := Prod.mk.inj (Option.some.inj hb)
  exact h

theorem failure : Gives (failure : Reader α) P := fun _ _ _ h => nomatch h

theorem bind {k : α → Reader β} {R : β → Prop} (h : Gives r P) (hk : ∀ a, P a → Gives (k a) R) :
    Gives (r >>= k) R := by
  intro cs b rest hb
  obtain ⟨⟨a, middle⟩, ha, hb⟩ := Option.bind_eq_some_iff.mp hb
  exact hk a (h cs a middle ha) middle b rest hb

theorem map {f : α → β} {R : β → Prop} (h : Gives r fun a => R (f a)) : Gives (r.map f) R := by
  intro cs b rest hb
  obtain ⟨⟨a, middle⟩, ha, hb⟩ := Option.bind_eq_some_iff.mp hb
  obtain ⟨rfl, -⟩ := Prod.mk.inj (Option.some.inj hb)
  exact h cs a middle ha

theorem orElse (h : Gives r P) (h' : Gives r' P) : Gives (r <|> r') P := by
  intro cs a rest ha
  have hor : (r <|> r') cs = (r cs <|> r' cs) := rfl
  rw [hor] at ha
  cases hr : r cs with
  | none =>
      rw [hr] at ha
      exact h' cs a rest ha
  | some b =>
      rw [hr] at ha
      exact h cs a rest (hr.trans ha)

theorem option (h : Gives r P) : Gives (Reader.option r) fun o => ∀ a ∈ o, P a := by
  intro cs o rest ho
  unfold Reader.option at ho
  split at ho
  · rename_i a _ ha
    obtain ⟨rfl, -⟩ := Prod.mk.inj (Option.some.inj ho)
    intro b hb
    obtain rfl := Option.some.inj hb
    exact h _ _ _ ha
  · obtain ⟨rfl, -⟩ := Prod.mk.inj (Option.some.inj ho)
    intro b hb
    cases hb

theorem many (h : Gives r P) : Gives (Reader.many r) fun as => ∀ a ∈ as, P a := by
  have hupTo : ∀ fuel cs, ∀ a ∈ (upTo r fuel cs).1, P a := by
    intro fuel
    induction fuel with
    | zero => exact fun cs a ha => nomatch ha
    | succ fuel ih =>
        intro cs a ha
        rw [upTo] at ha
        split at ha
        · cases ha
        · rename_i b rest hb
          rcases List.mem_cons.mp ha with rfl | ha
          · exact h _ _ _ hb
          · exact ih rest a ha
  intro cs as rest has
  obtain ⟨rfl, -⟩ := Prod.mk.inj (Option.some.inj has)
  exact hupTo cs.length cs

theorem separated (h : Gives r P) (separator : Reader Unit) :
    Gives (Reader.separated r separator) fun as => ∀ a ∈ as, P a := by
  refine h.bind fun first hfirst => ?_
  refine (many ((trivial separator).bind fun _ _ => h)).bind fun others hothers => ?_
  exact pure (List.forall_mem_cons.mpr ⟨hfirst, hothers⟩)

theorem placed (h : Gives r P) : Gives (Reader.placed r) fun a => P a.2 := by
  refine (trivial _).bind fun before _ => h.bind fun a ha => (trivial _).bind fun after _ => ?_
  exact pure ha

end Gives

/-! ## Values -/

theorem integer_gives : Gives integer fun n => (Tree.integer n).Valid := by
  refine (Gives.trivial _).bind fun n _ => ?_
  split
  · rename_i h
    obtain ⟨hlow, hhigh⟩ := Bool.and_eq_true_iff.mp h
    exact Gives.pure (.integer (of_decide_eq_true hlow) (of_decide_eq_true hhigh))
  · exact Gives.failure

theorem scalar_gives : Gives scalar fun v => v.tree.Valid := by
  refine Gives.orElse (Gives.map ?_) (Gives.orElse (Gives.map ?_) (Gives.orElse (Gives.map ?_)
    (Gives.orElse (Gives.map integer_gives) (Gives.map ?_))))
  · exact (Gives.trivial _).mono fun text _ => .string text
  · exact (Gives.trivial _).mono fun _ _ => .moment
  · exact (Gives.trivial _).mono fun x _ => .real x
  · exact (Gives.trivial _).mono fun b _ => .boolean b

section

variable {r : Reader Value} (h : Gives r fun v => v.tree.Valid)
include h

theorem assignment_gives : Gives (assignment r) fun a => a.value.tree.Valid := by
  refine (Gives.trivial dottedKey).bind fun _ _ => (Gives.trivial _).bind fun _ _ =>
    (Gives.trivial _).bind fun _ _ => h.placed.bind fun v hv => ?_
  exact Gives.pure hv

theorem array_gives : Gives (array r) fun v => v.tree.Valid := by
  have helement : Gives (do gap; let element ← placed r; gap; pure element) fun e =>
      e.2.tree.Valid :=
    (Gives.trivial _).bind fun _ _ => h.placed.bind fun e he => (Gives.trivial _).bind fun _ _ =>
      Gives.pure he
  refine (Gives.trivial _).bind fun _ _ => (helement.separated _).option.bind fun elements he => ?_
  have hend : Gives (do gap; char ']'; pure (Value.array (elements.getD []))) fun v =>
      v.tree.Valid := by
    refine (Gives.trivial _).bind fun _ _ => (Gives.trivial _).bind fun _ _ => Gives.pure ?_
    refine .array fun t ht => ?_
    rw [elementTrees_eq_map] at ht
    obtain ⟨e, hmem, rfl⟩ := List.mem_map.mp ht
    cases elements with
    | none => cases hmem
    | some es => exact he es rfl e hmem
  split
  · exact (Gives.trivial _).bind fun _ _ => hend
  · exact hend

theorem inlineTable_gives : Gives (inlineTable r) fun v => v.tree.Valid := by
  have hassignment : Gives (do let a ← assignment r; blanks; pure a) fun a =>
      a.value.tree.Valid :=
    (assignment_gives h).bind fun a ha => (Gives.trivial _).bind fun _ _ => Gives.pure ha
  refine (Gives.trivial _).bind fun _ _ => (hassignment.separated _).option.bind
    fun assignments ha => (Gives.trivial _).bind fun _ _ => (Gives.trivial _).bind fun _ _ => ?_
  split
  · rename_i es hes
    have hall : ∀ a ∈ assignments.getD [], a.value.tree.Valid := by
      cases assignments with
      | none => exact fun a hmem => nomatch hmem
      | some as => exact ha as rfl
    exact Gives.pure (assignAll_sound hall Entries.sound_nil hes).valid
  · exact Gives.failure

end

/-- **Readers of values give valid values**, at every depth. -/
theorem value_gives (depth : Nat) : Gives (value depth) fun v => v.tree.Valid := by
  induction depth with
  | zero => exact scalar_gives
  | succ depth ih => exact scalar_gives.orElse ((array_gives ih).orElse (inlineTable_gives ih))

theorem header_gives : Gives header Statement.Sound :=
  (Gives.trivial _).bind fun _ _ => Gives.pure True.intro

theorem statement_gives : Gives statement Statement.Sound := by
  have hassignment : Gives ((assignment (value maxDepth)).map .assignment) Statement.Sound :=
    Gives.map (assignment_gives (value_gives maxDepth))
  have hline : Gives fullLine Statement.Sound :=
    (header_gives.orElse hassignment).bind fun st hst => (Gives.trivial _).bind fun _ _ =>
      Gives.pure hst
  have hempty : Gives (emptyLine.map fun _ => Statement.blank) Statement.Sound :=
    Gives.map ((Gives.trivial _).mono fun _ _ => True.intro)
  exact (hempty.orElse hline).bind fun st hst => (Gives.trivial _).bind fun _ _ => Gives.pure hst

theorem statements_gives : Gives statements fun ss => ∀ st ∈ ss, st.Sound :=
  (Gives.trivial _).bind fun _ _ => (Gives.trivial _).bind fun _ _ =>
    statement_gives.many.bind fun _ hss => (Gives.trivial _).bind fun _ _ => Gives.pure hss

end Reader

/-- **A text that is read gives a valid document.** -/
theorem parse_valid {text : String} {es : List (String × Span × Value)}
    (h : parse text = some es) : (Tree.table (entryTrees es)).Valid := by
  obtain ⟨⟨statements, rest⟩, hstatements, h⟩ := Option.bind_eq_some_iff.mp h
  obtain ⟨entries, hroot, h⟩ := Option.bind_eq_some_iff.mp h
  obtain rfl := Option.some.inj h
  exact (root_sound (Reader.statements_gives _ _ _ hstatements) hroot).valid

end AccountCensus.Toml
