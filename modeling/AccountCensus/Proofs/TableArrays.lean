import AccountCensus.Proofs.Trees

/-!
# Arrays of tables

A header in double brackets adds a table to the array of tables under its key. From then on there
is such an array: no later line puts anything else in its place, and none takes a table out of it
(`Section.addTo_keeps`). So a text with such a header at its root has an array under that key whose
first element is a table (`lookup_of_element`).
-/

namespace AccountCensus.Toml

open Reader (Header Statement)

/-! ## Entries by name -/

namespace Entries

variable {es : Entries} {name other : String}

theorem node?_cons (e : Key × Node) (rest : Entries) (name : String) :
    Entries.node? (e :: rest) name =
      if e.1.name = name then some e.2 else Entries.node? rest name := by
  simp [node?]

theorem node?_append (es fs : Entries) (name : String) :
    Entries.node? (es ++ fs) name = (es.node? name).or (fs.node? name) := by
  induction es with
  | nil => rfl
  | cons e rest ih =>
      rw [List.cons_append, node?_cons, node?_cons, ih]
      split <;> rfl

theorem replace_cons (e : Key × Node) (rest : Entries) (name : String) (n : Node) :
    Entries.replace (e :: rest) name n =
      (e.1, if e.1.name = name then n else e.2) :: Entries.replace rest name n := by
  rw [replace, List.map_cons]
  refine congrArg (· :: _) ?_
  by_cases he : e.1.name = name <;> simp [he]

theorem node?_remove_of_ne (h : other ≠ name) : (es.remove other).node? name = es.node? name := by
  induction es with
  | nil => rfl
  | cons e rest ih =>
      by_cases he : e.1.name = other
      · have hne : e.1.name ≠ name := fun heq => h (he.symm.trans heq)
        rw [remove, List.filter_cons_of_neg (by simp [he]), node?_cons, if_neg hne]
        exact ih
      · rw [remove, List.filter_cons_of_pos (by simpa using he), node?_cons, node?_cons]
        exact congrArg _ ih

theorem node?_replace_of_ne (h : other ≠ name) (n : Node) :
    (es.replace other n).node? name = es.node? name := by
  induction es with
  | nil => rfl
  | cons e rest ih =>
      rw [replace_cons, node?_cons, node?_cons, ih]
      by_cases he : e.1.name = name
      · rw [if_pos he, if_pos he, if_neg fun heq => h (heq.symm.trans he)]
      · rw [if_neg he, if_neg he]

theorem node?_replace_self {n m : Node} (h : es.node? name = some m) :
    (es.replace name n).node? name = some n := by
  induction es with
  | nil => cases h
  | cons e rest ih =>
      rw [node?_cons] at h
      rw [replace_cons, node?_cons]
      split
      · rfl
      · rename_i he
        rw [if_neg he] at h
        exact ih h

end Entries

/-! ## Arrays of tables stay -/

/-- There is an array of tables under the name, and a table in it. -/
def HasTables (name : String) (es : Entries) : Prop :=
  ∃ e rest, es.node? name = some (.tables (e :: rest))

section

variable {name other : String} {es es' : Entries} (h : HasTables name es)
include h

theorem HasTables.append (fs : Entries) : HasTables name (es ++ fs) := by
  obtain ⟨e, rest, hnode⟩ := h
  exact ⟨e, rest, by rw [Entries.node?_append, hnode, Option.some_or]⟩

/-- Another node than an array of tables stands under another name. -/
theorem HasTables.ne {m : Node} (hm : es.node? other = some m)
    (hother : ∀ elements, m ≠ .tables elements) : other ≠ name := by
  obtain ⟨e, rest, hnode⟩ := h
  rintro rfl
  exact hother _ (Option.some.inj (hm.symm.trans hnode))

theorem HasTables.replace_of_ne (hne : other ≠ name) (n : Node) :
    HasTables name (es.replace other n) := by
  obtain ⟨e, rest, hnode⟩ := h
  exact ⟨e, rest, by rw [Entries.node?_replace_of_ne hne, hnode]⟩

theorem HasTables.remove_of_ne (hne : other ≠ name) : HasTables name (es.remove other) := by
  obtain ⟨e, rest, hnode⟩ := h
  exact ⟨e, rest, by rw [Entries.node?_remove_of_ne hne, hnode]⟩

/-- An array of tables can be replaced by one that has a table. -/
theorem HasTables.replace_tables {elements : List (Span × Entries)} {m : Node}
    (hm : es.node? other = some m) (hne : elements ≠ []) :
    HasTables name (es.replace other (.tables elements)) := by
  by_cases heq : other = name
  · subst heq
    obtain ⟨e, rest, rfl⟩ := List.exists_cons_of_ne_nil hne
    exact ⟨e, rest, Entries.node?_replace_self hm⟩
  · exact h.replace_of_ne heq _

/-- What is done at the end of a path keeps the arrays of tables of the root if it keeps those of
the table there. -/
theorem within_keeps {f : Origin → Entries → Option Entries}
    (hf : ∀ {origin es es'}, HasTables name es → f origin es = some es' → HasTables name es')
    {dotted : Bool} {origin : Origin} {path : List Key}
    (hwithin : within dotted f origin path es = some es') : HasTables name es' := by
  cases path with
  | nil => exact hf h hwithin
  | cons k path =>
      rw [within] at hwithin
      cases hn : Entries.node? es k.name with
      | none =>
          rw [hn] at hwithin
          obtain ⟨inner, -, hwithin⟩ := Option.bind_eq_some_iff.mp hwithin
          obtain rfl := Option.some.inj hwithin
          exact h.append _
      | some n =>
          rw [hn] at hwithin
          cases n with
          | value _ _ => cases hwithin
          | table _ _ =>
              dsimp only at hwithin
              split at hwithin
              · cases hwithin
              · obtain ⟨inner, -, hwithin⟩ := Option.bind_eq_some_iff.mp hwithin
                obtain rfl := Option.some.inj hwithin
                exact h.replace_of_ne (h.ne hn (by simp)) _
          | tables elements =>
              obtain ⟨_, -, hwithin⟩ := Option.bind_eq_some_iff.mp hwithin
              obtain ⟨inner, -, hwithin⟩ := Option.bind_eq_some_iff.mp hwithin
              obtain rfl := Option.some.inj hwithin
              exact h.replace_tables hn (by simp)

end

namespace Section

variable {s : Section} {name : String} {es es' : Entries}

theorem addTable_keeps (h : HasTables name es) (hadd : s.addTable es = some es') :
    HasTables name es' := by
  unfold addTable at hadd
  split at hadd
  · obtain ⟨inner, -, hadd⟩ := Option.bind_eq_some_iff.mp hadd
    obtain rfl := Option.some.inj hadd
    exact h.append _
  · rename_i hsome
    obtain ⟨inner, -, hadd⟩ := Option.bind_eq_some_iff.mp hadd
    obtain rfl := Option.some.inj hadd
    exact (h.remove_of_ne (h.ne hsome (by simp))).append _
  · cases hadd

theorem addElement_keeps (h : HasTables name es) (hadd : s.addElement es = some es') :
    HasTables name es' := by
  unfold addElement at hadd
  obtain ⟨inner, -, hadd⟩ := Option.bind_eq_some_iff.mp hadd
  split at hadd
  · obtain rfl := Option.some.inj hadd
    exact h.append _
  · rename_i hsome
    obtain rfl := Option.some.inj hadd
    exact h.replace_tables hsome (by simp)
  · cases hadd

/-- **An array of tables stays one**, whatever section is added. -/
theorem addTo_keeps (h : HasTables name es) (hadd : addTo es s = some es') :
    HasTables name es' := by
  refine within_keeps h (fun hparent hf => ?_) hadd
  cases hkind : s.kind with
  | table =>
      rw [hkind] at hf
      exact addTable_keeps hparent hf
  | element =>
      rw [hkind] at hf
      exact addElement_keeps hparent hf

/-- A section under a header in double brackets makes an array of tables, or adds to one. -/
theorem addTo_element (hkind : s.kind = .element) (hpath : s.path = [])
    (hadd : addTo es s = some es') : HasTables s.key.name es' := by
  rw [addTo, hkind, hpath, within] at hadd
  obtain ⟨inner, -, hadd⟩ := Option.bind_eq_some_iff.mp hadd
  split at hadd
  · rename_i hnone
    obtain rfl := Option.some.inj hadd
    refine ⟨(s.span, inner), [], ?_⟩
    rw [Entries.node?_append, hnone, Option.none_or, Entries.node?_cons, if_pos rfl]
  · rename_i elements hsome
    obtain rfl := Option.some.inj hadd
    obtain ⟨e, rest, hcons⟩ : ∃ e rest, elements ++ [(s.span, inner)] = e :: rest :=
      List.exists_cons_of_ne_nil (by simp)
    exact ⟨e, rest, by rw [Entries.node?_replace_self hsome, hcons]⟩
  · cases hadd

end Section

/-! ## Whole documents -/

/-- The names under which the headers in double brackets add tables to the root. -/
def elementNames (statements : List Statement) : List String :=
  statements.filterMap fun
    | .header .element _ [] key => some key.name
    | _ => none

theorem mem_elementNames {statements : List Statement} {name : String} :
    name ∈ elementNames statements ↔
      ∃ span key, .header .element span [] key ∈ statements ∧ key.name = name := by
  rw [elementNames, List.mem_filterMap]
  constructor
  · rintro ⟨st, hst, hname⟩
    split at hname
    · exact ⟨_, _, hst, Option.some.inj hname⟩
    · cases hname
  · rintro ⟨span, key, hst, rfl⟩
    exact ⟨_, hst, rfl⟩

/-- Every header has its section. -/
theorem exists_section {statements : List Statement} {kind : Header} {span : Span}
    {path : List Key} {key : Key} (h : .header kind span path key ∈ statements) :
    ∃ s ∈ (group statements).2, s.kind = kind ∧ s.path = path ∧ s.key = key := by
  induction statements with
  | nil => cases h
  | cons st rest ih =>
      rcases List.mem_cons.mp h with rfl | h
      · exact ⟨_, List.mem_cons_self, rfl, rfl, rfl⟩
      · obtain ⟨s, hs, heq⟩ := ih h
        cases st with
        | blank => exact ⟨s, hs, heq⟩
        | assignment _ => exact ⟨s, hs, heq⟩
        | header _ _ _ _ => exact ⟨s, List.mem_cons_of_mem _ hs, heq⟩

theorem hasTables_of_element {statements : List Statement} {name : String} {es : Entries}
    (h : name ∈ elementNames statements) (hroot : root statements = some es) :
    HasTables name es := by
  obtain ⟨span, _, hheader, rfl⟩ := mem_elementNames.mp h
  obtain ⟨s, hs, hkind, hpath, rfl⟩ := exists_section hheader
  obtain ⟨start, -, hroot⟩ := Option.bind_eq_some_iff.mp hroot
  obtain ⟨before, after, hsections⟩ := List.append_of_mem hs
  rw [hsections, List.foldlM_append] at hroot
  obtain ⟨middle, -, hroot⟩ := Option.bind_eq_some_iff.mp hroot
  rw [List.foldlM_cons] at hroot
  obtain ⟨there, hadd, hroot⟩ := Option.bind_eq_some_iff.mp hroot
  have hthere := Section.addTo_element hkind hpath hadd
  exact foldlM_keeps (fun _ _ _ _ => Section.addTo_keeps) hthere hroot

theorem lookup_placedEntries {es : Entries} {name : String} {n : Node}
    (h : es.node? name = some n) :
    ∃ span, (entryTrees (placedEntries es)).lookup name = some (n.placed span).2.tree := by
  induction es with
  | nil => cases h
  | cons e rest ih =>
      obtain ⟨k, m⟩ := e
      rw [Entries.node?_cons] at h
      rw [placedEntries, entryTrees, List.lookup_cons]
      by_cases hk : k.name = name
      · rw [if_pos hk] at h
        obtain rfl := Option.some.inj h
        exact ⟨k.span, by rw [hk, beq_self_eq_true]⟩
      · rw [if_neg hk] at h
        rw [beq_false_of_ne (Ne.symm hk)]
        exact ih h

/-- **A header in double brackets makes an array whose first element is a table.** -/
theorem lookup_of_element {text name : String} {statements : List Statement} {rest : List Char}
    {es : List (String × Span × Value)}
    (hstatements : Reader.statements text.toList = some (statements, rest))
    (h : name ∈ elementNames statements) (hparse : parse text = some es) :
    ∃ ds ts, (entryTrees es).lookup name = some (.array (.table ds :: ts)) := by
  rw [parse, hstatements] at hparse
  change (root statements).bind _ = some es at hparse
  obtain ⟨entries, hroot, hparse⟩ := Option.bind_eq_some_iff.mp hparse
  obtain rfl := Option.some.inj hparse
  obtain ⟨⟨_, inner⟩, elements, hnode⟩ := hasTables_of_element h hroot
  obtain ⟨_, hlookup⟩ := lookup_placedEntries hnode
  exact ⟨_, _, hlookup⟩

end AccountCensus.Toml
