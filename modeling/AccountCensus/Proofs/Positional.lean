import AccountCensus.Proofs.Meaning
import AccountCensus.Proofs.TableArrays

/-!
# Sections by position

A section that is an array says what the table says that has its elements under the names of the
settings, in their declared order (`declares_by_position`): elements beyond the last setting have
no name, and settings beyond the last element no value. Every other section is looked up past it.
An array of tables is such an array too, and its first element is a table, which no first setting
takes (`not_declares_of_tables`).

The reader comes before all that. It counts how deep arrays are nested, and the elements of a
section that is an array are one deeper than the values of a table under a header. It counts in
elements that have no name as well (`surplus_element_too_deep`).
-/

namespace AccountCensus.Settings

open Toml (Span Value Tree Document entryTrees)
open Relation (EqvGen)

/-! ## Arrays and tables -/

/-- **A document says what the entries of its sections say.** -/
theorem declares_congr {d d' : Document}
    (h : ∀ key names, (key, names) ∈ schema →
      entriesOf names (d.lookup key) = entriesOf names (d'.lookup key)) (s : Settings) :
    Declares d s ↔ Declares d' s := by
  have hserver := h "server" ["name", "metrics_port"] (by simp [schema])
  have hdatabase := h "database" ["path"] (by simp [schema])
  have hstats := h "stats" ["collection_interval", "fetch_timeout"] (by simp [schema])
  constructor
  · rintro ⟨hs, hd, ht⟩
    exact ⟨hserver ▸ hs, hdatabase ▸ hd, hstats ▸ ht⟩
  · rintro ⟨hs, hd, ht⟩
    exact ⟨hserver ▸ hs, hdatabase ▸ hd, hstats ▸ ht⟩

section

variable {key : String} {names : List String} (hkey : (key, names) ∈ schema)
  {before after : Document} {ts : List Tree}
include hkey

/-- **An array says what the table of its elements says**, wherever the section stands. -/
theorem declares_by_position (s : Settings) :
    Declares (before ++ (key, .array ts) :: after) s ↔
      Declares (before ++ (key, .table (names.zip ts)) :: after) s := by
  refine declares_congr (fun key' names' hkey' => ?_) s
  rw [List.lookup_append, List.lookup_append, List.lookup_cons, List.lookup_cons]
  by_cases heq : key' = key
  · subst heq
    obtain rfl := mem_schema_unique hkey hkey'
    rw [beq_self_eq_true]
    cases before.lookup key' <;> rfl
  · rw [beq_false_of_ne heq]

theorem names_nodup : names.Nodup := by
  simp only [schema, List.mem_cons, List.not_mem_nil, or_false, Prod.mk.injEq] at hkey
  rcases hkey with ⟨-, rfl⟩ | ⟨-, rfl⟩ | ⟨-, rfl⟩ <;> decide

/-- The table of its elements is a valid one. -/
theorem valid_by_position (h : (Tree.table (before ++ (key, .array ts) :: after)).Valid) :
    (Tree.table (before ++ (key, .table (names.zip ts)) :: after)).Valid := by
  cases h with
  | table hnodup hall =>
      have hkeys : (before ++ (key, Tree.table (names.zip ts)) :: after).map Prod.fst =
          (before ++ (key, Tree.array ts) :: after).map Prod.fst := by
        simp only [List.map_append, List.map_cons]
      refine .table (hkeys ▸ hnodup) fun e he => ?_
      rcases List.mem_append.mp he with he | he
      · exact hall e (List.mem_append_left _ he)
      · rcases List.mem_cons.mp he with rfl | he
        · cases hall (key, .array ts) (by simp) with
          | array helements =>
              refine .table ((names_nodup hkey).sublist (map_fst_zip_sublist names ts)) ?_
              exact fun e he => helements e.2 (List.of_mem_zip he).2
        · exact hall e (List.mem_append_right _ (List.mem_cons_of_mem _ he))

/-- Both forms of a section are settled the same way, in any order of the keys. -/
theorem settled_by_position (existing : String → Bool) (text text' : String)
    {es es' : List (String × Span × Value)} (hes : (Tree.table (entryTrees es)).Valid)
    (hes' : (Tree.table (entryTrees es')).Valid)
    (harray : entryTrees es = before ++ (key, .array ts) :: after)
    (htable : EqvGen Edit (before ++ (key, .table (names.zip ts)) :: after) (entryTrees es')) :
    SameOutcome (settled existing text es) (settled existing text' es') := by
  refine settled_of_declares existing text text' hes hes' fun s => ?_
  have htame := tame_of_valid (valid_by_position hkey (harray ▸ hes))
  rw [harray, declares_by_position hkey]
  exact (declares_of_edits htable).2 htame s

end

/-! ## Arrays of tables -/

/-- **No section is an array of tables.** -/
theorem not_declares_of_tables {d ds : Document} {ts : List Tree} {key : String}
    (hkey : key ∈ schema.map Prod.fst) (h : d.lookup key = some (.array (.table ds :: ts)))
    (s : Settings) : ¬ Declares d s := by
  rintro ⟨⟨server, hserver, htells⟩, ⟨database, hdatabase, htells'⟩, ⟨stats, hstats, htells''⟩⟩
  simp only [schema, List.map_cons, List.map_nil, List.mem_cons, List.not_mem_nil,
    or_false] at hkey
  rcases hkey with rfl | rfl | rfl
  · rw [h] at hserver
    obtain rfl := Option.some.inj hserver
    cases htells.name
  · rw [h] at hdatabase
    obtain rfl := Option.some.inj hdatabase
    cases htells'.path
  · rw [h] at hstats
    obtain rfl := Option.some.inj hstats
    cases htells''.collectionInterval

theorem parse_tables {existing : String → Bool} {text : String}
    {es : List (String × Span × Value)} {ds : Document} {ts : List Tree} {key : String}
    (hparse : Toml.parse text = some es) (hkey : key ∈ schema.map Prod.fst)
    (h : (entryTrees es).lookup key = some (.array (.table ds :: ts))) :
    ∃ m, parse existing text = .error (.shape text m) := by
  rw [parse_eq_settled hparse]
  rcases settled_cases existing text (Toml.parse_valid hparse) with ⟨s, hs, -⟩ | ⟨-, hrefused⟩
  · exact absurd hs (not_declares_of_tables hkey h s)
  · exact hrefused

/-! ## Texts -/

/-- **The array form and the table form of a section agree.** Let a document have an array for a
section, with any elements and any other entries, and another one in its place the table that
assigns the elements to the settings in their declared order, elements beyond the last setting
dropped and settings beyond the last element left out; apart from that they may differ in the order
of their keys and in keys that nobody asks for. If both are read, both give the same settings, or
both are refused for a shape, or both for the same violations; so do values of any depth that were
never read from a text. An array of tables for a section is refused for its shape, and so is every
document that has a header in double brackets for one. -/
theorem array_and_table_forms_agree (existing : String → Bool) :
    (∀ (text text' : String) (es es' : List (String × Span × Value)) (key : String)
      (names : List String) (before after : Document) (ts : List Tree),
      Toml.parse text = some es → Toml.parse text' = some es' → (key, names) ∈ schema →
      entryTrees es = before ++ (key, .array ts) :: after →
      EqvGen Edit (before ++ (key, .table (names.zip ts)) :: after) (entryTrees es') →
      SameOutcome (parse existing text) (parse existing text')) ∧
    (∀ (text text' : String) (es es' : List (String × Span × Value)) (key : String)
      (names : List String) (before after : Document) (ts : List Tree),
      (Tree.table (entryTrees es)).Valid → (Tree.table (entryTrees es')).Valid →
      (key, names) ∈ schema → entryTrees es = before ++ (key, .array ts) :: after →
      EqvGen Edit (before ++ (key, .table (names.zip ts)) :: after) (entryTrees es') →
      SameOutcome (settled existing text es) (settled existing text' es')) ∧
    (∀ (text : String) (es : List (String × Span × Value)) (key : String) (ds : Document)
      (ts : List Tree), Toml.parse text = some es → key ∈ schema.map Prod.fst →
      (entryTrees es).lookup key = some (.array (.table ds :: ts)) →
      ∃ m, parse existing text = .error (.shape text m)) ∧
    ∀ (text : String) (es : List (String × Span × Value))
      (statements : List Toml.Reader.Statement) (rest : List Char) (key : String),
      Toml.parse text = some es →
      Toml.Reader.statements text.toList = some (statements, rest) →
      key ∈ Toml.elementNames statements → key ∈ schema.map Prod.fst →
      ∃ m, parse existing text = .error (.shape text m) := by
  refine ⟨?_, ?_, ?_, ?_⟩
  · intro text text' es es' key names before after ts hparse hparse' hkey harray htable
    rw [parse_eq_settled hparse, parse_eq_settled hparse']
    exact settled_by_position hkey existing text text' (Toml.parse_valid hparse)
      (Toml.parse_valid hparse') harray htable
  · intro text text' es es' key names before after ts hes hes' hkey harray htable
    exact settled_by_position hkey existing text text' hes hes' harray htable
  · intro text es key ds ts hparse hkey h
    exact parse_tables hparse hkey h
  · intro text es statements rest key hparse hstatements helement hkey
    obtain ⟨ds, ts, h⟩ := Toml.lookup_of_element hstatements helement hparse
    exact parse_tables hparse hkey h

/-- A server by position with an element too many, and by name with the port first: both give the
same settings, as texts and as values. An array of tables is refused, in either notation. -/
theorem server_in_three_forms :
    let array := "server = [\"a\", 1, true]"
    let table := "[server]\nmetrics_port = 1\nname = \"a\""
    let inline := "server = [\x7bname = \"a\"\x7d]"
    let tables := "[[server]]\nname = \"a\""
    let span : Span := ⟨0, 0⟩
    let byPosition := [("server", span,
      Value.array [(span, .string "a"), (span, .integer 1), (span, .boolean true)])]
    let byName := [("server", span,
      Value.table [("name", span, .string "a"), ("metrics_port", span, .integer 1)])]
    SameOutcome (parse (fun _ => true) array) (parse (fun _ => true) table) ∧
      (parse (fun _ => true) array).toOption = some { server := ⟨"a", 1⟩ } ∧
      SameOutcome (settled (fun _ => true) "" byPosition) (settled (fun _ => true) "" byName) ∧
      (∃ m, parse (fun _ => true) inline = .error (.shape inline m)) ∧
      ∃ m, parse (fun _ => true) tables = .error (.shape tables m) := by
  intro array table inline tables span byPosition byName
  obtain ⟨hforms, hvalues, harrays, hheaders⟩ := array_and_table_forms_agree fun _ => true
  have hserver : ("server", ["name", "metrics_port"]) ∈ schema := by simp [schema]
  refine ⟨?_, by decide +kernel, ?_, ?_, ?_⟩
  · have hisArray : (Toml.parse array).map entryTrees =
        some [("server", .array [.string "a", .integer 1, .boolean true])] := by
      decide +kernel
    have hisTable : (Toml.parse table).map entryTrees =
        some [("server", .table [("metrics_port", .integer 1), ("name", .string "a")])] := by
      decide +kernel
    obtain ⟨es, hes, harray⟩ := Option.map_eq_some_iff.mp hisArray
    obtain ⟨es', hes', htable⟩ := Option.map_eq_some_iff.mp hisTable
    refine hforms array table es es' _ _ [] [] _ hes hes' hserver harray ?_
    rw [htable]
    exact .rel _ _ (.inside [] [] hserver (.reorder (List.Perm.swap _ _ _)))
  · have hname : (Tree.string "a").Valid := .string "a"
    have hport : (Tree.integer 1).Valid := .integer (by decide) (by decide)
    have hbyPosition : (Tree.table (entryTrees byPosition)).Valid :=
      .table (by decide) (List.forall_mem_singleton.mpr (.array (List.forall_mem_cons.mpr
        ⟨hname, List.forall_mem_cons.mpr ⟨hport, List.forall_mem_singleton.mpr (.boolean true)⟩⟩)))
    have hbyName : (Tree.table (entryTrees byName)).Valid :=
      .table (by decide) (List.forall_mem_singleton.mpr (.table (by decide)
        (List.forall_mem_cons.mpr ⟨hname, List.forall_mem_singleton.mpr hport⟩)))
    exact hvalues "" "" byPosition byName "server" _ [] [] _ hbyPosition hbyName hserver rfl
      (.refl _)
  · have hisInline : (Toml.parse inline).map (fun es => (entryTrees es).lookup "server") =
        some (some (.array [.table [("name", .string "a")]])) := by
      decide +kernel
    obtain ⟨es, hes, hlookup⟩ := Option.map_eq_some_iff.mp hisInline
    exact harrays inline es "server" _ _ hes (List.mem_map_of_mem hserver) hlookup
  · have hisTables : (Toml.Reader.statements tables.toList).map (Toml.elementNames ·.1) =
        some ["server"] := by
      decide +kernel
    obtain ⟨⟨statements, rest⟩, hstatements, hnames⟩ := Option.map_eq_some_iff.mp hisTables
    obtain ⟨es, hes⟩ := Option.isSome_iff_exists.mp
      (show (Toml.parse tables).isSome = true by decide +kernel)
    exact hheaders tables es statements rest "server" hes hstatements
      (hnames ▸ List.mem_cons_self) (List.mem_map_of_mem hserver)

/-- Without both texts being read the forms need not agree. An element too many that is nested as
deep as values may be is too deep inside an array for a section, although nobody looks at it. -/
theorem surplus_element_too_deep :
    let deep := String.ofList (List.replicate 79 '[' ++ List.replicate 79 ']')
    (Toml.parse ("value = " ++ deep)).isSome = true ∧
      parse (fun _ => true) ("server = [\"a\", 1, " ++ deep ++ "]") = .error .syntactic ∧
      parse (fun _ => true) "[server]\nname = \"a\"\nmetrics_port = 1" =
        .ok { server := ⟨"a", 1⟩ } := by
  intro deep
  have harray : Toml.parse ("server = [\"a\", 1, " ++ deep ++ "]") = none :=
    Option.isNone_iff_eq_none.mp (by decide +kernel)
  have htable : (parse (fun _ => true) "[server]\nname = \"a\"\nmetrics_port = 1").toOption =
      some { server := ⟨"a", 1⟩ } := by
    decide +kernel
  refine ⟨by decide +kernel, by rw [parse, harray], ?_⟩
  cases h : parse (fun _ => true) "[server]\nname = \"a\"\nmetrics_port = 1" with
  | error e =>
      rw [h] at htable
      cases htable
  | ok s =>
      rw [h] at htable
      exact congrArg _ (Option.some.inj htable)

end AccountCensus.Settings
