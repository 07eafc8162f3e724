import AccountCensus.Proofs.Trees
import AccountCensus.Settings.Decode

/-!
# What a document says

Decoding walks along the entries of a document and changes the settings as it goes. What comes of
it can be said without the walk: each setting has the value that the document has for it, or its
default where the document has none (`Declares`). `ofEntries_iff` shows the two the same, so that
the order of the walk, the entries it passes over and the place where it stops have no part in
the settings.

The settings of a section are its slots. Setting one of them leaves the others alone, and a name
is there once; with that the walk is followed once for all sections (`setEntries_iff`).
-/

namespace AccountCensus.Settings

open Toml (Span Value Tree Document entryTrees elementTrees entryTrees_eq_map elementTrees_eq_map
  entryTrees_names)

/-! ## The meaning of a document -/

/-- A setting has the value that is written for it, or its default where none is. -/
def Reads {α : Type} (written : α → Tree) (default : α) : Option Tree → α → Prop
  | none, a => a = default
  | some t, a => t = written a

/-- What the entries of a section say. -/
structure Server.Tells (es : Document) (s : Server) : Prop where
  name : Reads .string ({} : Server).name (es.lookup "name") s.name
  metricsPort : Reads (fun n : Nat => .integer n) ({} : Server).metricsPort
    (es.lookup "metrics_port") s.metricsPort
  metricsPort_le : s.metricsPort ≤ 65535

@[inherit_doc Server.Tells]
structure Database.Tells (es : Document) (s : Database) : Prop where
  path : Reads .string ({} : Database).path (es.lookup "path") s.path

@[inherit_doc Server.Tells]
structure Stats.Tells (es : Document) (s : Stats) : Prop where
  collectionInterval : Reads (fun n : Nat => .integer n) ({} : Stats).collectionInterval
    (es.lookup "collection_interval") s.collectionInterval
  collectionInterval_lt : s.collectionInterval < Nat.pow 2 63
  fetchTimeout : Reads (fun n : Nat => .integer n) ({} : Stats).fetchTimeout
    (es.lookup "fetch_timeout") s.fetchTimeout
  fetchTimeout_lt : s.fetchTimeout < Nat.pow 2 63

/-- The entries of a section that may be there. One that is left out has none; an array has its
elements under the names of the settings. -/
def entriesOf (names : List String) : Option Tree → Option Document
  | none => some []
  | some (.table es) => some es
  | some (.array ts) => some (names.zip ts)
  | some .moment => some []
  | some _ => none

/-- **What a document says**: each of its sections is one, and each setting has the document's
value, or its default where the document or the section has none. -/
structure Declares (d : Document) (s : Settings) : Prop where
  server : ∃ es, entriesOf ["name", "metrics_port"] (d.lookup "server") = some es ∧
    s.server.Tells es
  database : ∃ es, entriesOf ["path"] (d.lookup "database") = some es ∧ s.database.Tells es
  stats : ∃ es, entriesOf ["collection_interval", "fetch_timeout"] (d.lookup "stats") = some es ∧
    s.stats.Tells es

/-! ## Slots -/

/-- A setting in a state: how its value is read, and where it is. -/
structure Slot (σ : Type) where
  name : String
  α : Type
  read : Span → Value → Except Mismatch α
  get : σ → α
  put : σ → α → σ

namespace Slot

variable {σ : Type}

def field (slot : Slot σ) : String × Setter σ :=
  (slot.name, fun s span v => (slot.read span v).map (slot.put s))

/-- The slot is in the second state as the entry for it says, and as before where there is none. -/
def Takes (slot : Slot σ) (written : Option (Span × Value)) (s s' : σ) : Prop :=
  match written with
  | none => slot.get s' = slot.get s
  | some (span, v) => slot.read span v = .ok (slot.get s')

/-- The slots of a state do not disturb each other, and there is nothing else in it. -/
structure Lawful (slots : List (Slot σ)) : Prop where
  distinct : (slots.map Slot.name).Nodup
  get_put : ∀ slot ∈ slots, ∀ s a, slot.get (slot.put s a) = a
  frame : ∀ slot ∈ slots, ∀ other ∈ slots, other.name ≠ slot.name →
    ∀ s a, other.get (slot.put s a) = other.get s
  ext : ∀ {s s'}, (∀ slot ∈ slots, slot.get s' = slot.get s) → s' = s

theorem Takes.congr {slot : Slot σ} {written : Option (Span × Value)} {s t s' : σ}
    (h : slot.get t = slot.get s) : slot.Takes written t s' ↔ slot.Takes written s s' := by
  cases written with
  | none => rw [Takes, Takes, h]
  | some _ => exact Iff.rfl

theorem lookup_field {slots : List (Slot σ)} (hdistinct : (slots.map Slot.name).Nodup)
    {slot : Slot σ} (h : slot ∈ slots) :
    (slots.map field).lookup slot.name = some slot.field.2 := by
  induction slots with
  | nil => cases h
  | cons first rest ih =>
      obtain ⟨hnew, hdistinct⟩ := List.nodup_cons.mp hdistinct
      rw [List.map_cons, field, List.lookup_cons]
      rcases List.mem_cons.mp h with rfl | h
      · rw [beq_self_eq_true]
        rfl
      · have hne : slot.name ≠ first.name := fun heq => hnew (heq ▸ List.mem_map_of_mem h)
        rw [beq_false_of_ne hne]
        exact ih hdistinct h

theorem lookup_field_eq_none {slots : List (Slot σ)} {name : String}
    (h : ∀ slot ∈ slots, slot.name ≠ name) : (slots.map field).lookup name = none := by
  rw [List.lookup_eq_none_iff]
  intro f hf
  obtain ⟨slot, hslot, rfl⟩ := List.mem_map.mp hf
  exact bne_iff_ne.mpr (h slot hslot).symm

end Slot

open Slot

section

variable {σ : Type} {slots : List (Slot σ)} (hslots : Lawful slots)
include hslots

theorem Slot.Lawful.eq_of_name {slot other : Slot σ} (hslot : slot ∈ slots)
    (hother : other ∈ slots) (h : slot.name = other.name) : slot = other :=
  List.inj_on_of_nodup_map hslots.distinct hslot hother h

omit hslots in
/-- An entry of another name is passed over. -/
theorem setEntries_cons_unknown {name : String} (h : ∀ slot ∈ slots, slot.name ≠ name) (s : σ)
    (span : Span) (v : Value) (rest : List (String × Span × Value)) :
    setEntries (slots.map field) s ((name, span, v) :: rest) =
      setEntries (slots.map field) s rest := by
  rw [setEntries, lookup_field_eq_none h]

/-- An entry of a slot's name is read and put there. -/
theorem setEntries_cons_known {slot : Slot σ} (h : slot ∈ slots) (s s' : σ) (span : Span)
    (v : Value) (rest : List (String × Span × Value)) :
    setEntries (slots.map field) s ((slot.name, span, v) :: rest) = .ok s' ↔
      ∃ a, slot.read span v = .ok a ∧
        setEntries (slots.map field) (slot.put s a) rest = .ok s' := by
  rw [setEntries, lookup_field hslots.distinct h]
  dsimp only [field]
  cases slot.read span v <;> simp [Except.map, Except.bind]

/-- **The walk without the walk**: it comes to its end in the state in which each slot has the
value of its entry, or what it had before where there is none. Entries of other names and the
order of the entries make no difference. -/
theorem setEntries_iff {es : List (String × Span × Value)} (hes : (es.map Prod.fst).Nodup)
    {s s' : σ} : setEntries (slots.map field) s es = .ok s' ↔
      ∀ slot ∈ slots, slot.Takes (es.lookup slot.name) s s' := by
  induction es generalizing s with
  | nil =>
      constructor
      · intro h slot _
        obtain rfl := Except.ok.inj h
        rfl
      · intro h
        rw [setEntries, hslots.ext h]
  | cons e rest ih =>
      obtain ⟨name, span, v⟩ := e
      obtain ⟨hnew, hrest⟩ := List.nodup_cons.mp hes
      have hbehind : ∀ slot : Slot σ, slot.name ≠ name →
          ((name, span, v) :: rest).lookup slot.name = rest.lookup slot.name := by
        intro slot hne
        rw [List.lookup_cons, beq_false_of_ne hne]
      by_cases hknown : ∃ slot ∈ slots, slot.name = name
      · obtain ⟨first, hfirst, rfl⟩ := hknown
        have hnone : rest.lookup first.name = none := by
          rw [List.lookup_eq_none_iff]
          intro e he
          exact bne_iff_ne.mpr fun heq => hnew (List.mem_map.mpr ⟨e, he, heq.symm⟩)
        have hself : ((first.name, span, v) :: rest).lookup first.name = some (span, v) := by
          rw [List.lookup_cons, beq_self_eq_true]
        rw [setEntries_cons_known hslots hfirst]
        constructor
        · rintro ⟨a, hread, h⟩ slot hslot
          have htakes := (ih hrest).mp h
          -- nothing behind the entry touches its slot again
          have ha : first.get s' = a := by
            have hlast := htakes first hfirst
            rw [hnone] at hlast
            exact hlast.trans (hslots.get_put first hfirst s a)
          by_cases hname : slot.name = first.name
          · obtain rfl := hslots.eq_of_name hslot hfirst hname
            rw [hself, Takes, ha]
            exact hread
          · rw [hbehind slot hname]
            exact (Takes.congr (hslots.frame first hfirst slot hslot hname s a)).mp
              (htakes slot hslot)
        · intro h
          have hread := h first hfirst
          rw [hself] at hread
          refine ⟨first.get s', hread, (ih hrest).mpr fun slot hslot => ?_⟩
          by_cases hname : slot.name = first.name
          · obtain rfl := hslots.eq_of_name hslot hfirst hname
            rw [hnone, Takes, hslots.get_put slot hslot]
          · apply (Takes.congr (hslots.frame first hfirst slot hslot hname s _)).mpr
            rw [← hbehind slot hname]
            exact h slot hslot
      · have hunknown : ∀ slot ∈ slots, slot.name ≠ name := by
          intro slot hslot hname
          exact hknown ⟨slot, hslot, hname⟩
        rw [setEntries_cons_unknown hunknown, ih hrest]
        apply forall₂_congr
        intro slot hslot
        rw [hbehind slot (hunknown slot hslot)]

omit hslots in
private theorem setElements_suffix {rest : List (Slot σ)}
    (hrest : ∀ slot ∈ rest, (slots.map field).lookup slot.name = some slot.field.2) (s : σ)
    (elements : List (Span × Value)) :
    setElements (rest.map field) s elements =
      setEntries (slots.map field) s ((rest.map Slot.name).zip elements) := by
  induction rest generalizing s elements with
  | nil => rfl
  | cons slot rest ih =>
      obtain ⟨hslot, hrest⟩ := List.forall_mem_cons.mp hrest
      cases elements with
      | nil => rfl
      | cons e elements =>
          obtain ⟨span, v⟩ := e
          rw [List.map_cons, List.map_cons, List.zip_cons_cons, setEntries, hslot]
          show (slot.field.2 s span v).bind _ = (slot.field.2 s span v).bind _
          apply congrArg
          funext s
          exact ih hrest s elements

/-- **An array is the table that its elements make under the names of the settings**, in their
declared order. -/
theorem setElements_eq (s : σ) (elements : List (Span × Value)) :
    setElements (slots.map field) s elements =
      setEntries (slots.map field) s ((slots.map Slot.name).zip elements) :=
  setElements_suffix (fun _ hslot => lookup_field hslots.distinct hslot) s elements

/-! ## Sections -/

omit hslots in
/-- The entries of a section. A moment has none, and other values are no sections. -/
def sectionEntries (names : List String) : Value → Option (List (String × Span × Value))
  | .table entries => some entries
  | .array elements => some (names.zip elements)
  | .moment => some []
  | _ => none

theorem sectionOf_eq_ok {wanted : Wanted} {default s : σ} {span : Span} {v : Value} :
    sectionOf (slots.map field) wanted default span v = .ok s ↔
      ∃ es, sectionEntries (slots.map Slot.name) v = some es ∧
        setEntries (slots.map field) default es = .ok s := by
  cases v <;> simp [sectionOf, sectionEntries, setElements_eq hslots, setEntries]

end

/-! ## The slots of the settings -/

def Server.slots : List (Slot Server) := [
  ⟨"name", String, textOf, (·.name), fun s name => { s with name }⟩,
  ⟨"metrics_port", Nat, portOf, (·.metricsPort), fun s metricsPort => { s with metricsPort }⟩]

def Database.slots : List (Slot Database) := [
  ⟨"path", String, textOf, (·.path), fun s path => { s with path }⟩]

def Stats.slots : List (Slot Stats) := [
  ⟨"collection_interval", Nat, secondsOf, (·.collectionInterval),
    fun s collectionInterval => { s with collectionInterval }⟩,
  ⟨"fetch_timeout", Nat, secondsOf, (·.fetchTimeout),
    fun s fetchTimeout => { s with fetchTimeout }⟩]

def slots : List (Slot Settings) := [
  ⟨"server", Server, sectionOf Server.fields .server {}, (·.server),
    fun s server => { s with server }⟩,
  ⟨"database", Database, sectionOf Database.fields .database {}, (·.database),
    fun s database => { s with database }⟩,
  ⟨"stats", Stats, sectionOf Stats.fields .stats {}, (·.stats), fun s stats => { s with stats }⟩]

theorem Server.slots_lawful : Lawful Server.slots where
  distinct := by decide
  get_put := by simp [slots]
  frame := by simp [slots]
  ext := by
    rintro ⟨_, _⟩ ⟨_, _⟩ h
    simpa [slots] using h

theorem Database.slots_lawful : Lawful Database.slots where
  distinct := by decide
  get_put := by simp [slots]
  frame := by simp [slots]
  ext := by
    rintro ⟨_⟩ ⟨_⟩ h
    simpa [slots] using h

theorem Stats.slots_lawful : Lawful Stats.slots where
  distinct := by decide
  get_put := by simp [slots]
  frame := by simp [slots]
  ext := by
    rintro ⟨_, _⟩ ⟨_, _⟩ h
    simpa [slots] using h

theorem slots_lawful : Lawful slots where
  distinct := by decide
  get_put := by simp [slots]
  frame := by simp [slots]
  ext := by
    rintro ⟨_, _, _⟩ ⟨_, _, _⟩ h
    simpa [slots] using h

theorem Server.fields_eq : Server.fields = Server.slots.map Slot.field := rfl

theorem Database.fields_eq : Database.fields = Database.slots.map Slot.field := rfl

theorem Stats.fields_eq : Stats.fields = Stats.slots.map Slot.field := rfl

theorem sections_eq : sections = slots.map Slot.field := rfl

theorem lookup_entryTrees (es : List (String × Span × Value)) (name : String) :
    (entryTrees es).lookup name = (es.lookup name).map fun e => e.2.tree := by
  induction es with
  | nil => rfl
  | cons e rest ih =>
      obtain ⟨name', span, v⟩ := e
      rw [entryTrees, List.lookup_cons, List.lookup_cons, ih]
      cases name == name' <;> rfl

theorem valid_of_lookup {d : Document} (hd : (Tree.table d).Valid) {name : String}
    {t : Tree} (h : d.lookup name = some t) : t.Valid := by
  obtain ⟨before, after, rfl, -⟩ := List.lookup_eq_some_iff.mp h
  cases hd with
  | table _ hall => exact hall (name, t) (by simp)

/-! ## Single values -/

theorem textOf_eq_ok {span : Span} {v : Value} {s : String} :
    textOf span v = .ok s ↔ v.tree = .string s := by
  cases v <;> simp [textOf, Value.tree]

theorem naturalUpTo_eq_ok {bound : Nat} {wanted : Wanted} {span : Span} {v : Value} {n : Nat} :
    naturalUpTo bound wanted span v = .ok n ↔ v.tree = .integer n ∧ n ≤ bound := by
  cases v with
  | integer i =>
      rw [naturalUpTo, Value.tree, Tree.integer.injEq]
      split
      · rename_i hi
        simp only [Bool.and_eq_true, decide_eq_true_eq] at hi
        rw [Except.ok.injEq]
        omega
      · rename_i hi
        simp only [Bool.and_eq_true, decide_eq_true_eq] at hi
        constructor
        · intro h
          cases h
        · rintro ⟨rfl, hn⟩
          omega
  | _ => simp [naturalUpTo, Value.tree]

section

variable {σ : Type} {name : String} {es : List (String × Span × Value)} {s s' : σ}

theorem takes_text {get : σ → String} {put : σ → String → σ} :
    Slot.Takes ⟨name, String, textOf, get, put⟩ (es.lookup name) s s' ↔
      Reads .string (get s) ((entryTrees es).lookup name) (get s') := by
  rw [lookup_entryTrees]
  cases es.lookup name with
  | none => exact Iff.rfl
  | some e => exact textOf_eq_ok

theorem takes_natural {bound : Nat} {wanted : Wanted} {get : σ → Nat} {put : σ → Nat → σ}
    (h : get s ≤ bound) :
    Slot.Takes ⟨name, Nat, naturalUpTo bound wanted, get, put⟩ (es.lookup name) s s' ↔
      Reads (fun n : Nat => .integer n) (get s) ((entryTrees es).lookup name) (get s') ∧
        get s' ≤ bound := by
  rw [lookup_entryTrees]
  cases es.lookup name with
  | none =>
      show get s' = get s ↔ get s' = get s ∧ get s' ≤ bound
      constructor
      · intro heq
        exact ⟨heq, heq ▸ h⟩
      · exact And.left
  | some e => exact naturalUpTo_eq_ok

end

/-- A natural number of a document fits into 63 bits. -/
theorem Reads.lt {default n : Nat} {written : Option Tree}
    (h : Reads (fun n : Nat => .integer n) default written n) (hvalid : ∀ t ∈ written, t.Valid)
    (hdefault : default < Nat.pow 2 63) : n < Nat.pow 2 63 := by
  cases written with
  | none =>
      obtain rfl := h
      exact hdefault
  | some t =>
      obtain rfl := h
      cases hvalid _ rfl with
      | integer _ hlt => omega

/-! ## Sections and documents -/

theorem nodup_of_valid {es : List (String × Span × Value)}
    (h : (Tree.table (entryTrees es)).Valid) : (es.map Prod.fst).Nodup := by
  cases h with
  | table hnodup _ => rwa [entryTrees_names] at hnodup

section

variable {es : List (String × Span × Value)} (hes : (Tree.table (entryTrees es)).Valid)
include hes

theorem Server.setEntries_tells (s : Server) :
    setEntries Server.fields {} es = .ok s ↔ s.Tells (entryTrees es) := by
  have hport : ({} : Server).metricsPort ≤ 65535 := by decide
  rw [fields_eq, setEntries_iff slots_lawful (nodup_of_valid hes)]
  simp only [slots, List.forall_mem_cons, List.not_mem_nil, false_implies, implies_true, and_true]
  rw [takes_text, portOf, takes_natural hport]
  constructor
  · rintro ⟨hname, hreads, hle⟩
    exact ⟨hname, hreads, hle⟩
  · rintro ⟨hname, hreads, hle⟩
    exact ⟨hname, hreads, hle⟩

theorem Database.setEntries_tells (s : Database) :
    setEntries Database.fields {} es = .ok s ↔ s.Tells (entryTrees es) := by
  rw [fields_eq, setEntries_iff slots_lawful (nodup_of_valid hes)]
  simp only [slots, List.forall_mem_cons, List.not_mem_nil, false_implies, implies_true, and_true]
  rw [takes_text]
  exact ⟨fun h => ⟨h⟩, fun h => h.path⟩

theorem Stats.setEntries_tells (s : Stats) :
    setEntries Stats.fields {} es = .ok s ↔ s.Tells (entryTrees es) := by
  have hinterval : ({} : Stats).collectionInterval ≤ Nat.pow 2 64 - 1 := by decide
  have htimeout : ({} : Stats).fetchTimeout ≤ Nat.pow 2 64 - 1 := by decide
  rw [fields_eq, setEntries_iff slots_lawful (nodup_of_valid hes)]
  simp only [slots, List.forall_mem_cons, List.not_mem_nil, false_implies, implies_true, and_true]
  rw [secondsOf, takes_natural hinterval, takes_natural htimeout]
  constructor
  · rintro ⟨⟨hinterval, -⟩, htimeout, -⟩
    have hvalid : ∀ name, ∀ t ∈ (entryTrees es).lookup name, t.Valid :=
      fun name t ht => valid_of_lookup hes ht
    exact ⟨hinterval, hinterval.lt (hvalid _) (by decide), htimeout,
      htimeout.lt (hvalid _) (by decide)⟩
  · rintro ⟨hinterval, hinterval_lt, htimeout, htimeout_lt⟩
    have hbound : Nat.pow 2 63 ≤ Nat.pow 2 64 - 1 := by decide
    exact ⟨⟨hinterval, by omega⟩, htimeout, by omega⟩

end

theorem map_fst_zip_sublist {α β : Type} (as : List α) (bs : List β) :
    ((as.zip bs).map Prod.fst).Sublist as := by
  induction as generalizing bs with
  | nil => simp
  | cons a as ih =>
      cases bs with
      | nil => simp
      | cons b bs => exact (ih bs).cons_cons a

theorem entriesOf_tree (names : List String) (v : Value) :
    entriesOf names (some v.tree) = (sectionEntries names v).map entryTrees := by
  cases v with
  | array elements =>
      simp only [Value.tree, entriesOf, sectionEntries, Option.map_some, elementTrees_eq_map,
        entryTrees_eq_map, List.zip_map_right]
      rfl
  | _ => rfl

/-- The entries of a section are those of a valid table, also if it is an array. -/
theorem sectionEntries_valid {names : List String} (hnames : names.Nodup) {v : Value}
    (hv : v.tree.Valid) {es : List (String × Span × Value)}
    (h : sectionEntries names v = some es) : (Tree.table (entryTrees es)).Valid := by
  cases v with
  | table entries =>
      obtain rfl := Option.some.inj h
      exact hv
  | array elements =>
      obtain rfl := Option.some.inj h
      cases hv with
      | array hall =>
          refine .table ?_ fun e he => ?_
          · rw [entryTrees_names]
            exact hnames.sublist (map_fst_zip_sublist names elements)
          · rw [entryTrees_eq_map] at he
            obtain ⟨f, hf, rfl⟩ := List.mem_map.mp he
            rw [elementTrees_eq_map] at hall
            exact hall _ (List.mem_map_of_mem (List.of_mem_zip hf).2)
  | moment =>
      obtain rfl := Option.some.inj h
      exact .table List.nodup_nil (by simp [entryTrees])
  | _ => cases h

section

variable {σ : Type} {slots : List (Slot σ)} (hslots : Lawful slots) {default : σ}
  {tells : Document → σ → Prop}
  (htells : ∀ {es : List (String × Span × Value)}, (Tree.table (entryTrees es)).Valid →
    ∀ s, setEntries (slots.map Slot.field) default es = .ok s ↔ tells (entryTrees es) s)
include hslots htells

theorem sectionOf_tells {wanted : Wanted} {span : Span} {v : Value} (hv : v.tree.Valid) {s : σ} :
    sectionOf (slots.map Slot.field) wanted default span v = .ok s ↔
      ∃ es, entriesOf (slots.map Slot.name) (some v.tree) = some es ∧ tells es s := by
  have hvalid : ∀ {es}, sectionEntries (slots.map Slot.name) v = some es →
      (Tree.table (entryTrees es)).Valid := sectionEntries_valid hslots.distinct hv
  rw [sectionOf_eq_ok hslots, entriesOf_tree]
  constructor
  · rintro ⟨es, hes, h⟩
    exact ⟨entryTrees es, by rw [hes]; rfl, (htells (hvalid hes) s).mp h⟩
  · rintro ⟨_, heq, h⟩
    obtain ⟨es, hes, rfl⟩ := Option.map_eq_some_iff.mp heq
    exact ⟨es, hes, (htells (hvalid hes) s).mpr h⟩

/-- A section that is left out is one without entries. -/
theorem takes_section {ρ : Type} {name : String} {wanted : Wanted} {get : ρ → σ} {put : ρ → σ → ρ}
    {es : List (String × Span × Value)} (hes : (Tree.table (entryTrees es)).Valid) {s s' : ρ}
    (hs : get s = default) :
    Slot.Takes ⟨name, σ, sectionOf (slots.map Slot.field) wanted default, get, put⟩
        (es.lookup name) s s' ↔
      ∃ fs, entriesOf (slots.map Slot.name) ((entryTrees es).lookup name) = some fs ∧
        tells fs (get s') := by
  have hvalid : ∀ t, (entryTrees es).lookup name = some t → t.Valid :=
    fun t ht => valid_of_lookup hes ht
  rw [lookup_entryTrees] at hvalid ⊢
  cases hlookup : es.lookup name with
  | some e =>
      rw [hlookup] at hvalid
      exact sectionOf_tells hslots htells (hvalid _ rfl)
  | none =>
      have hnothing : tells [] (get s') ↔ default = get s' := by
        have hvalid : (Tree.table (entryTrees [])).Valid :=
          .table List.nodup_nil (by simp [entryTrees])
        have hempty := htells hvalid (get s')
        rw [setEntries, Except.ok.injEq] at hempty
        exact hempty.symm
      show get s' = get s ↔ ∃ fs, some [] = some fs ∧ tells fs (get s')
      rw [hs]
      constructor
      · intro heq
        exact ⟨[], rfl, hnothing.mpr heq.symm⟩
      · rintro ⟨fs, hfs, h⟩
        obtain rfl := Option.some.inj hfs
        exact (hnothing.mp h).symm

end

/-- **Decoding gives what the document says**, and refuses exactly the documents that say
nothing. -/
theorem ofEntries_iff {es : List (String × Span × Value)}
    (hes : (Tree.table (entryTrees es)).Valid) {s : Settings} :
    ofEntries es = .ok s ↔ Declares (entryTrees es) s := by
  have hserver : ({} : Settings).server = {} := rfl
  have hdatabase : ({} : Settings).database = {} := rfl
  have hstats : ({} : Settings).stats = {} := rfl
  rw [ofEntries, sections_eq, setEntries_iff slots_lawful (nodup_of_valid hes)]
  simp only [slots, List.forall_mem_cons, List.not_mem_nil, false_implies, implies_true, and_true]
  rw [Server.fields_eq, Database.fields_eq, Stats.fields_eq,
    takes_section Server.slots_lawful Server.setEntries_tells hes hserver,
    takes_section Database.slots_lawful Database.setEntries_tells hes hdatabase,
    takes_section Stats.slots_lawful Stats.setEntries_tells hes hstats]
  constructor
  · rintro ⟨hserver, hdatabase, hstats⟩
    exact ⟨hserver, hdatabase, hstats⟩
  · rintro ⟨hserver, hdatabase, hstats⟩
    exact ⟨hserver, hdatabase, hstats⟩

end AccountCensus.Settings
