import AccountCensus.Toml.Document
import Mathlib.Data.List.Nodup

/-!
# Documents as trees

A document tree is what a document says, without the places where it says it. `Tree.Valid` holds
of the trees that are documents at all: a table has each key once, and integers have 64 bits with
their sign.

The tables under construction stay sound in every step that adds to them, since a name is put in
only where it is new, and is taken out before it is put in again. `within_sound` says this of a
change at the end of any path, and the steps that build a root table are all such changes
(`root_sound`).
-/

namespace AccountCensus.Toml

/-! ## Trees -/

inductive Tree where
  | string (text : String)
  | integer (value : Int)
  | real (value : Real)
  | boolean (value : Bool)
  | moment
  | array (elements : List Tree)
  | table (entries : List (String × Tree))

/-- The entries of a document's root table. -/
abbrev Document := List (String × Tree)

mutual

def Value.tree : Value → Tree
  | .string s => .string s
  | .integer n => .integer n
  | .real x => .real x
  | .boolean b => .boolean b
  | .moment => .moment
  | .array elements => .array (elementTrees elements)
  | .table entries => .table (entryTrees entries)

def elementTrees : List (Span × Value) → List Tree
  | [] => []
  | (_, v) :: rest => v.tree :: elementTrees rest

def entryTrees : List (String × Span × Value) → Document
  | [] => []
  | (name, _, v) :: rest => (name, v.tree) :: entryTrees rest

end

theorem elementTrees_eq_map (elements : List (Span × Value)) :
    elementTrees elements = elements.map fun e => e.2.tree := by
  induction elements with
  | nil => rfl
  | cons e rest ih => rw [elementTrees, ih, List.map_cons]

theorem entryTrees_eq_map (entries : List (String × Span × Value)) :
    entryTrees entries = entries.map fun e => (e.1, e.2.2.tree) := by
  induction entries with
  | nil => rfl
  | cons e rest ih => rw [entryTrees, ih, List.map_cons]

/-! ## Decidable equality -/

mutual

/-- Equality as a test that runs. -/
def Tree.same : Tree → Tree → Bool
  | .string s, .string s' => s = s'
  | .integer n, .integer n' => n = n'
  | .real x, .real x' => x = x'
  | .boolean b, .boolean b' => b = b'
  | .moment, .moment => true
  | .array ts, .array ts' => sameElements ts ts'
  | .table es, .table es' => sameEntries es es'
  | _, _ => false

def sameElements : List Tree → List Tree → Bool
  | [], [] => true
  | t :: ts, t' :: ts' => t.same t' && sameElements ts ts'
  | _, _ => false

def sameEntries : Document → Document → Bool
  | [], [] => true
  | (name, t) :: es, (name', t') :: es' => name = name' && t.same t' && sameEntries es es'
  | _, _ => false

end

mutual

theorem Tree.same_iff (t t' : Tree) : t.same t' = true ↔ t = t' := by
  cases t with
  | array ts => cases t' <;> simp [Tree.same, sameElements_iff ts]
  | table es => cases t' <;> simp [Tree.same, sameEntries_iff es]
  | _ => cases t' <;> simp [Tree.same]

theorem sameElements_iff (ts ts' : List Tree) : sameElements ts ts' = true ↔ ts = ts' := by
  cases ts with
  | nil => cases ts' <;> simp [sameElements]
  | cons t ts => cases ts' <;> simp [sameElements, Tree.same_iff t, sameElements_iff ts]

theorem sameEntries_iff (es es' : Document) : sameEntries es es' = true ↔ es = es' := by
  cases es with
  | nil => cases es' <;> simp [sameEntries]
  | cons e es =>
      cases es' <;> simp [sameEntries, Tree.same_iff e.2, sameEntries_iff es, Prod.ext_iff]

end

instance : DecidableEq Tree := fun t t' => decidable_of_iff _ (t.same_iff t')

/-! ## Valid trees -/

/-- A tree that a document can have. -/
inductive Tree.Valid : Tree → Prop
  | string (text : String) : Valid (.string text)
  | integer {n : Int} : -(Nat.pow 2 63 : Int) ≤ n → n < Nat.pow 2 63 → Valid (.integer n)
  | real (x : Real) : Valid (.real x)
  | boolean (b : Bool) : Valid (.boolean b)
  | moment : Valid .moment
  | array {elements : List Tree} : (∀ t ∈ elements, Valid t) → Valid (.array elements)
  | table {entries : Document} : (entries.map Prod.fst).Nodup →
      (∀ e ∈ entries, Valid e.2) → Valid (.table entries)

/-! ## Tables under construction -/

def Entries.names (entries : Entries) : List String := entries.map fun e => e.1.name

@[simp] theorem Entries.names_nil : Entries.names [] = [] := rfl

@[simp] theorem Entries.names_cons (e : Key × Node) (rest : Entries) :
    Entries.names (e :: rest) = e.1.name :: Entries.names rest := rfl

@[simp] theorem Entries.names_append (es fs : Entries) :
    Entries.names (es ++ fs) = es.names ++ fs.names :=
  List.map_append

/-- What has been built so far has each name once in a table, and only valid values. -/
inductive Node.Sound : Node → Prop
  | value {span : Span} {v : Value} : v.tree.Valid → Sound (.value span v)
  | table {origin : Origin} {entries : Entries} : entries.names.Nodup →
      (∀ e ∈ entries, Sound e.2) → Sound (.table origin entries)
  | tables {elements : List (Span × Entries)} : (∀ t ∈ elements, t.2.names.Nodup) →
      (∀ t ∈ elements, ∀ e ∈ t.2, Sound e.2) → Sound (.tables elements)

theorem entryTrees_names (entries : List (String × Span × Value)) :
    (entryTrees entries).map Prod.fst = entries.map Prod.fst := by
  rw [entryTrees_eq_map, List.map_map]
  rfl

theorem placedEntries_names (entries : Entries) :
    (entryTrees (placedEntries entries)).map Prod.fst = entries.names := by
  rw [entryTrees_names]
  induction entries with
  | nil => rfl
  | cons e rest ih => rw [placedEntries, List.map_cons, ih, Entries.names_cons]

mutual

theorem Node.Sound.placed_valid (key : Span) : ∀ {n : Node}, n.Sound → (n.placed key).2.tree.Valid
  | .value _ _, .value h => h
  | .table _ entries, .table hnames hnodes =>
      .table (by rw [placedEntries_names]; exact hnames) (placedEntries_valid hnodes)
  | .tables _, .tables hnames hnodes => .array (placedElements_valid hnames hnodes)

theorem placedEntries_valid : ∀ {entries : Entries}, (∀ e ∈ entries, e.2.Sound) →
    ∀ t ∈ entryTrees (placedEntries entries), t.2.Valid
  | [], _, t, ht => nomatch ht
  | (k, n) :: rest, h, t, ht => by
      rw [placedEntries, entryTrees] at ht
      rcases List.mem_cons.mp ht with rfl | ht
      · exact (h _ List.mem_cons_self).placed_valid k.span
      · exact placedEntries_valid (fun e he => h e (List.mem_cons_of_mem _ he)) t ht

theorem placedElements_valid : ∀ {elements : List (Span × Entries)},
    (∀ t ∈ elements, t.2.names.Nodup) → (∀ t ∈ elements, ∀ e ∈ t.2, e.2.Sound) →
    ∀ t ∈ elementTrees (placedElements elements), t.Valid
  | [], _, _, t, ht => nomatch ht
  | (_, entries) :: rest, hnames, hnodes, t, ht => by
      rw [placedElements, elementTrees] at ht
      rcases List.mem_cons.mp ht with rfl | ht
      · refine .table ?_ (placedEntries_valid (hnodes _ List.mem_cons_self))
        rw [placedEntries_names]
        exact hnames _ List.mem_cons_self
      · exact placedElements_valid (fun e he => hnames e (List.mem_cons_of_mem _ he))
          (fun e he => hnodes e (List.mem_cons_of_mem _ he)) t ht

end

/-- Sound entries of one table. -/
structure Entries.Sound (entries : Entries) : Prop where
  distinct : entries.names.Nodup
  nodes : ∀ e ∈ entries, e.2.Sound

namespace Entries

theorem sound_nil : Sound [] := ⟨List.nodup_nil, by simp⟩

theorem node?_eq_none {entries : Entries} {name : String} :
    entries.node? name = none ↔ name ∉ entries.names := by
  induction entries with
  | nil => simp [node?]
  | cons e rest ih =>
      by_cases h : e.1.name = name
      · simp [node?, h]
      · simp [node?, h, ih, Ne.symm h]

theorem mem_of_node? {entries : Entries} {name : String} {n : Node}
    (h : entries.node? name = some n) : ∃ k, (k, n) ∈ entries := by
  induction entries with
  | nil => cases h
  | cons e rest ih =>
      rw [node?] at h
      split at h
      · obtain rfl := Option.some.inj h
        exact ⟨e.1, List.mem_cons_self⟩
      · obtain ⟨k, hk⟩ := ih h
        exact ⟨k, List.mem_cons_of_mem _ hk⟩

theorem node?_remove (entries : Entries) (name : String) :
    (entries.remove name).node? name = none := by
  rw [node?_eq_none]
  intro h
  obtain ⟨e, he, rfl⟩ := List.mem_map.mp h
  simpa using (List.mem_filter.mp he).2

namespace Sound

variable {entries : Entries} (h : Sound entries)
include h

theorem node? {name : String} {n : Node} (hn : entries.node? name = some n) : n.Sound := by
  obtain ⟨k, hk⟩ := mem_of_node? hn
  exact h.nodes _ hk

/-- A new name may be put in. -/
theorem append {k : Key} {n : Node} (hk : entries.node? k.name = none) (hn : n.Sound) :
    Sound (entries ++ [(k, n)]) where
  distinct := by
    rw [names_append, List.nodup_append]
    refine ⟨h.distinct, List.nodup_singleton _, ?_⟩
    rintro a ha b hb rfl
    rw [names_cons, names_nil, List.mem_singleton] at hb
    exact node?_eq_none.mp hk (hb ▸ ha)
  nodes := by
    intro e he
    rcases List.mem_append.mp he with he | he
    · exact h.nodes e he
    · rw [List.mem_singleton.mp he]
      exact hn

/-- A node may take the place of another. -/
theorem replace (name : String) {n : Node} (hn : n.Sound) : Sound (entries.replace name n) where
  distinct := by
    have hsame : (entries.replace name n).names = entries.names := by
      rw [names, Entries.replace, List.map_map]
      apply List.map_congr_left
      intro e _
      simp only [Function.comp_apply]
      split <;> rfl
    rw [hsame]
    exact h.distinct
  nodes := by
    intro e he
    obtain ⟨f, hf, rfl⟩ := List.mem_map.mp he
    dsimp only
    split
    · exact hn
    · exact h.nodes f hf

theorem remove (name : String) : Sound (entries.remove name) where
  distinct := h.distinct.sublist (List.Sublist.map _ List.filter_sublist)
  nodes := fun e he => h.nodes e (List.mem_of_mem_filter he)

/-- A node may be taken out and put in again at the end. -/
theorem move (k : Key) {n : Node} (hn : n.Sound) :
    Sound (entries.remove k.name ++ [(k, n)]) :=
  (h.remove k.name).append (node?_remove entries k.name) hn

theorem table (origin : Origin) : (Node.table origin entries).Sound := .table h.distinct h.nodes

/-- A sound table is a valid value. -/
theorem valid : (Tree.table (entryTrees (placedEntries entries))).Valid :=
  (h.table .dotted).placed_valid ⟨0, 0⟩

end Sound

theorem sound_of_table {origin : Origin} {entries : Entries}
    (h : (Node.table origin entries).Sound) : Sound entries := by
  cases h with
  | table hdistinct hnodes => exact ⟨hdistinct, hnodes⟩

theorem sound_tables {elements : List (Span × Entries)} :
    (Node.tables elements).Sound ↔ ∀ t ∈ elements, Sound t.2 := by
  constructor
  · rintro (_ | _ | ⟨hdistinct, hnodes⟩) t ht
    exact ⟨hdistinct t ht, hnodes t ht⟩
  · intro h
    exact .tables (fun t ht => (h t ht).distinct) fun t ht => (h t ht).nodes

end Entries

open Entries (Sound)

/-- **What is done at the end of a path keeps the whole sound** if it keeps the table there
sound. -/
theorem within_sound {dotted : Bool} {f : Origin → Entries → Option Entries}
    (hf : ∀ {origin es es'}, Sound es → f origin es = some es' → Sound es') (path : List Key) :
    ∀ {origin : Origin} {es es' : Entries}, Sound es → within dotted f origin path es = some es' →
      Sound es' := by
  induction path with
  | nil => exact fun hes h => hf hes h
  | cons k path ih =>
      intro origin es es' hes h
      rw [within] at h
      cases hn : Entries.node? es k.name with
      | none =>
          rw [hn] at h
          obtain ⟨inner, hinner, h⟩ := Option.bind_eq_some_iff.mp h
          obtain rfl := Option.some.inj h
          exact hes.append hn ((ih Entries.sound_nil hinner).table _)
      | some n =>
          rw [hn] at h
          have hnode := hes.node? hn
          cases n with
          | value _ _ => cases h
          | table origin' inner =>
              dsimp only at h
              split at h
              · cases h
              · obtain ⟨inner', hinner, h⟩ := Option.bind_eq_some_iff.mp h
                obtain rfl := Option.some.inj h
                exact hes.replace _ ((ih (Entries.sound_of_table hnode) hinner).table _)
          | tables elements =>
              obtain ⟨⟨span, inner⟩, hlast, h⟩ := Option.bind_eq_some_iff.mp h
              obtain ⟨inner', hinner, h⟩ := Option.bind_eq_some_iff.mp h
              obtain rfl := Option.some.inj h
              have helements := Entries.sound_tables.mp hnode
              have hlast := helements _ (List.mem_of_getLast? hlast)
              refine hes.replace _ (Entries.sound_tables.mpr fun t ht => ?_)
              rcases List.mem_append.mp ht with ht | ht
              · exact helements t (List.dropLast_subset _ ht)
              · rw [List.mem_singleton.mp ht]
                exact ih hlast hinner

theorem assign_sound {es es' : Entries} {a : Assignment} (hes : Sound es) (ha : a.value.tree.Valid)
    (h : assign es a = some es') : Sound es' := by
  refine within_sound (fun hinner hf => ?_) a.path hes h
  split at hf
  · cases hf
  · split at hf
    · cases hf
    · rename_i hnew
      obtain rfl := Option.some.inj hf
      exact hinner.append (by simpa using hnew) (.value ha)

/-- A run of changes keeps what each of them keeps. -/
theorem foldlM_keeps {P : Entries → Prop} {β : Type} {f : Entries → β → Option Entries}
    {bs : List β} (hf : ∀ b ∈ bs, ∀ {es es'}, P es → f es b = some es' → P es') :
    ∀ {es es' : Entries}, P es → bs.foldlM f es = some es' → P es' := by
  induction bs with
  | nil =>
      intro es es' hes h
      obtain rfl := Option.some.inj h
      exact hes
  | cons b bs ih =>
      intro es es' hes h
      obtain ⟨hb, hbs⟩ := List.forall_mem_cons.mp hf
      obtain ⟨middle, hmiddle, h⟩ := Option.bind_eq_some_iff.mp h
      exact ih hbs (hb hes hmiddle) h

theorem assignAll_sound {as : List Assignment} (has : ∀ a ∈ as, a.value.tree.Valid)
    {es es' : Entries} (hes : Sound es) (h : assignAll es as = some es') : Sound es' :=
  foldlM_keeps (fun a ha _ _ hes h => assign_sound hes (has a ha) h) hes h

/-! ## Sections -/

namespace Section

variable {s : Section} (hs : ∀ a ∈ s.assignments, a.value.tree.Valid)
include hs

theorem addTable_sound {parent parent' : Entries} (hparent : Sound parent)
    (h : s.addTable parent = some parent') : Sound parent' := by
  unfold addTable at h
  split at h
  · rename_i hnone
    obtain ⟨inner, hinner, h⟩ := Option.bind_eq_some_iff.mp h
    obtain rfl := Option.some.inj h
    exact hparent.append hnone ((assignAll_sound hs Entries.sound_nil hinner).table _)
  · rename_i inner hsome
    obtain ⟨inner', hinner, h⟩ := Option.bind_eq_some_iff.mp h
    obtain rfl := Option.some.inj h
    have hold := Entries.sound_of_table (hparent.node? hsome)
    exact hparent.move _ ((assignAll_sound hs hold hinner).table _)
  · cases h

theorem addElement_sound {parent parent' : Entries} (hparent : Sound parent)
    (h : s.addElement parent = some parent') : Sound parent' := by
  unfold addElement at h
  obtain ⟨inner, hinner, h⟩ := Option.bind_eq_some_iff.mp h
  have hinner := assignAll_sound hs Entries.sound_nil hinner
  split at h
  · rename_i hnone
    obtain rfl := Option.some.inj h
    refine hparent.append hnone (Entries.sound_tables.mpr fun t ht => ?_)
    rw [List.mem_singleton.mp ht]
    exact hinner
  · rename_i elements hsome
    obtain rfl := Option.some.inj h
    have hold := Entries.sound_tables.mp (hparent.node? hsome)
    refine hparent.replace _ (Entries.sound_tables.mpr fun t ht => ?_)
    rcases List.mem_append.mp ht with ht | ht
    · exact hold t ht
    · rw [List.mem_singleton.mp ht]
      exact hinner
  · cases h

theorem addTo_sound {root root' : Entries} (hroot : Sound root)
    (h : addTo root s = some root') : Sound root' := by
  refine within_sound (fun hparent hf => ?_) s.path hroot h
  cases hkind : s.kind with
  | table =>
      rw [hkind] at hf
      exact addTable_sound hs hparent hf
  | element =>
      rw [hkind] at hf
      exact addElement_sound hs hparent hf

end Section

/-! ## The root table -/

/-- The assignment that a line holds gives a valid value. -/
def Reader.Statement.Sound : Statement → Prop
  | .assignment a => a.value.tree.Valid
  | _ => True

theorem group_sound {statements : List Reader.Statement} (h : ∀ st ∈ statements, st.Sound) :
    (∀ a ∈ (group statements).1, a.value.tree.Valid) ∧
      ∀ s ∈ (group statements).2, ∀ a ∈ s.assignments, a.value.tree.Valid := by
  induction statements with
  | nil => exact ⟨by simp [group], by simp [group]⟩
  | cons st rest ih =>
      obtain ⟨hst, hrest⟩ := List.forall_mem_cons.mp h
      obtain ⟨hassignments, hsections⟩ := ih hrest
      cases st with
      | blank => exact ⟨hassignments, hsections⟩
      | assignment a => exact ⟨List.forall_mem_cons.mpr ⟨hst, hassignments⟩, hsections⟩
      | header kind span path key =>
          exact ⟨by simp [group], List.forall_mem_cons.mpr ⟨hassignments, hsections⟩⟩

/-- **A root table has each name once**, and so has every table in it. -/
theorem root_sound {statements : List Reader.Statement} {es : Entries}
    (hstatements : ∀ st ∈ statements, st.Sound) (h : root statements = some es) : Sound es := by
  obtain ⟨hassignments, hsections⟩ := group_sound hstatements
  obtain ⟨start, hstart, h⟩ := Option.bind_eq_some_iff.mp h
  have hstart := assignAll_sound hassignments Entries.sound_nil hstart
  exact foldlM_keeps (fun s hs _ _ hes h => Section.addTo_sound (hsections s hs) hes h) hstart h

end AccountCensus.Toml
