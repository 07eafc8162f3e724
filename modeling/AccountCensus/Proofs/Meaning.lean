import AccountCensus.Proofs.Decoding
import AccountCensus.Proofs.Legality
import AccountCensus.Proofs.Readings
import Mathlib.Data.List.Count
import Mathlib.Logic.Relation

/-!
# What does not matter in a document

Keys may stand in any order, and keys that nobody asks for may be there or not, at the top and
inside sections. `Edit` is one such change of a document tree; any number of them, back and forth,
leave alone what the document says (`declares_of_edits`), and so the settings that are loaded from
it and the way in which it is refused.

The reader comes before all that, and looks at every value: one that is nested too deep has the text
refused even under a key that nobody asks for (`unknown_key_too_deep`).
-/

namespace AccountCensus.Settings

open Toml (Span Value Tree Document entryTrees)
open Relation (EqvGen)

/-! ## Changes of a document -/

/-- The sections, and the settings in each of them. -/
def schema : List (String × List String) := [
  ("server", ["name", "metrics_port"]),
  ("database", ["path"]),
  ("stats", ["collection_interval", "fetch_timeout"])]

/-- A change of the entries of a table that has these names to offer. -/
inductive Harmless (names : List String) : Document → Document → Prop
  | reorder {es es' : Document} : es.Perm es' → Harmless names es es'
  | add (es fs : Document) {name : String} (t : Tree) : name ∉ names →
      Harmless names (es ++ fs) (es ++ (name, t) :: fs)

/-- A change of a document that does not matter: at its top, or inside a section that is a
table. -/
inductive Edit : Document → Document → Prop
  | top {d d' : Document} : Harmless (schema.map Prod.fst) d d' → Edit d d'
  | inside (before after : Document) {es es' : Document} {key : String} {names : List String} :
      (key, names) ∈ schema → Harmless names es es' →
      Edit (before ++ (key, .table es) :: after) (before ++ (key, .table es') :: after)

/-! ## Entries by name -/

/-- None of the names is there twice. -/
def Single (names : List String) (es : Document) : Prop :=
  ∀ name ∈ names, (es.map Prod.fst).count name ≤ 1

theorem lookup_eq_some_iff_mem {es : Document} {name : String} {t : Tree}
    (h : (es.map Prod.fst).count name ≤ 1) : es.lookup name = some t ↔ (name, t) ∈ es := by
  constructor
  · intro hlookup
    obtain ⟨before, after, rfl, -⟩ := List.lookup_eq_some_iff.mp hlookup
    simp
  · intro hmem
    obtain ⟨before, after, rfl⟩ := List.append_of_mem hmem
    refine List.lookup_eq_some_iff.mpr ⟨before, after, rfl, fun e he => bne_iff_ne.mpr ?_⟩
    rintro rfl
    -- the name would be there twice
    have htwice : 0 < (before.map Prod.fst).count e.1 :=
      List.count_pos_iff.mpr (List.mem_map_of_mem he)
    rw [List.map_append, List.map_cons, List.count_append, List.count_cons_self] at h
    omega

namespace Harmless

variable {names : List String} {es es' : Document} (h : Harmless names es es')
include h

theorem count_eq {name : String} (hname : name ∈ names) :
    (es.map Prod.fst).count name = (es'.map Prod.fst).count name := by
  cases h with
  | reorder hperm => exact (hperm.map Prod.fst).count_eq name
  | @add es fs other t hother =>
      have hne : (other == name) = false := beq_false_of_ne fun heq => hother (heq ▸ hname)
      simp [List.count_cons, hne]

theorem single_iff : Single names es ↔ Single names es' := by
  apply forall₂_congr
  intro name hname
  rw [h.count_eq hname]

theorem mem_iff {name : String} (hname : name ∈ names) (t : Tree) :
    (name, t) ∈ es ↔ (name, t) ∈ es' := by
  cases h with
  | reorder hperm => exact hperm.mem_iff
  | @add es fs other u hother =>
      have hne : name ≠ other := fun heq => hother (heq ▸ hname)
      simp [hne]

/-- **What is asked for is found as before.** -/
theorem lookup_eq (hsingle : Single names es) {name : String} (hname : name ∈ names) :
    es.lookup name = es'.lookup name := by
  ext t
  have hsingle' := h.single_iff.mp hsingle
  rw [lookup_eq_some_iff_mem (hsingle name hname), lookup_eq_some_iff_mem (hsingle' name hname)]
  exact h.mem_iff hname t

end Harmless

/-! ## Documents whose keys are there once -/

/-- The keys that are asked for are there once at most, at the top and inside sections. -/
structure Tame (d : Document) : Prop where
  top : Single (schema.map Prod.fst) d
  inside : ∀ {key : String} {names : List String} {es : Document}, (key, names) ∈ schema →
    (key, .table es) ∈ d → Single names es

theorem single_of_nodup {es : Document} (h : (es.map Prod.fst).Nodup) (names : List String) :
    Single names es := fun name _ => List.nodup_iff_count_le_one.mp h name

theorem tame_of_valid {d : Document} (h : (Tree.table d).Valid) : Tame d := by
  cases h with
  | table hnodup hall =>
      refine ⟨single_of_nodup hnodup _, fun {_ names _} _ hmem => ?_⟩
      cases hall _ hmem with
      | table hinner _ => exact single_of_nodup hinner names

theorem mem_schema_unique {key : String} {names names' : List String}
    (h : (key, names) ∈ schema) (h' : (key, names') ∈ schema) : names = names' := by
  have hkeys : (schema.map Prod.fst).Nodup := by decide
  exact (Prod.mk.inj (List.inj_on_of_nodup_map hkeys h h' rfl)).2

theorem mem_keys_of_schema {key : String} {names : List String} (h : (key, names) ∈ schema) :
    key ∈ schema.map Prod.fst :=
  List.mem_map_of_mem h

section

variable {before after es es' : Document} {key : String} {names : List String}
  (hkey : (key, names) ∈ schema)
include hkey

theorem Tame.replace (hsingle : Single names es → Single names es')
    (h : Tame (before ++ (key, .table es) :: after)) :
    Tame (before ++ (key, .table es') :: after) where
  top := by
    have htop := h.top
    simp only [Single, List.map_append, List.map_cons] at htop ⊢
    exact htop
  inside := by
    intro key' names' fs hkey' hmem
    have hthere : (key, .table es) ∈ before ++ (key, .table es) :: after := by simp
    rcases List.mem_append.mp hmem with hmem | hmem
    · exact h.inside hkey' (List.mem_append_left _ hmem)
    · rcases List.mem_cons.mp hmem with heq | hmem
      · obtain ⟨rfl, htable⟩ := Prod.mk.inj heq
        obtain rfl := Tree.table.inj htable
        obtain rfl := mem_schema_unique hkey hkey'
        exact hsingle (h.inside hkey hthere)
      · exact h.inside hkey' (List.mem_append_right _ (List.mem_cons_of_mem _ hmem))

end

theorem Edit.tame_iff {d d' : Document} (h : Edit d d') : Tame d ↔ Tame d' := by
  cases h with
  | top h =>
      constructor
      · intro hd
        refine ⟨h.single_iff.mp hd.top, fun hkey hmem => ?_⟩
        exact hd.inside hkey ((h.mem_iff (mem_keys_of_schema hkey) _).mpr hmem)
      · intro hd
        refine ⟨h.single_iff.mpr hd.top, fun hkey hmem => ?_⟩
        exact hd.inside hkey ((h.mem_iff (mem_keys_of_schema hkey) _).mp hmem)
  | inside _ _ hkey h =>
      exact ⟨Tame.replace hkey h.single_iff.mp, Tame.replace hkey h.single_iff.mpr⟩

/-! ## The same meaning -/

/-- Sections that are the same where it matters. -/
def SameSection (names : List String) (t? t?' : Option Tree) : Prop :=
  t? = t?' ∨ ∃ es es', t? = some (.table es) ∧ t?' = some (.table es') ∧
    ∀ name ∈ names, es.lookup name = es'.lookup name

theorem Edit.sameSection {d d' : Document} (h : Edit d d') (hd : Tame d) {key : String}
    {names : List String} (hkey : (key, names) ∈ schema) :
    SameSection names (d.lookup key) (d'.lookup key) := by
  have hd' := h.tame_iff.mp hd
  have hmem := mem_keys_of_schema hkey
  cases h with
  | top h => exact .inl (h.lookup_eq hd.top hmem)
  | @inside before after es es' key' names' hkey' h =>
      by_cases heq : key = key'
      · obtain rfl := heq
        obtain rfl := mem_schema_unique hkey hkey'
        refine .inr ⟨es, es', ?_, ?_, fun name hname => h.lookup_eq ?_ hname⟩
        · exact (lookup_eq_some_iff_mem (hd.top key hmem)).mpr (by simp)
        · exact (lookup_eq_some_iff_mem (hd'.top key hmem)).mpr (by simp)
        · exact hd.inside hkey (by simp)
      · refine .inl ?_
        ext t
        rw [lookup_eq_some_iff_mem (hd.top key hmem), lookup_eq_some_iff_mem (hd'.top key hmem)]
        simp [heq]

theorem SameSection.symm {names : List String} {t? t?' : Option Tree}
    (h : SameSection names t? t?') : SameSection names t?' t? := by
  rcases h with rfl | ⟨es, es', rfl, rfl, hlookup⟩
  · exact .inl rfl
  · exact .inr ⟨es', es, rfl, rfl, fun name hname => (hlookup name hname).symm⟩

/-- What is read from a section by its names is read from one that is the same there. -/
theorem SameSection.read {σ : Type} (tells : Document → σ → Prop) {names : List String}
    {t? t?' : Option Tree} (h : SameSection names t? t?')
    (htells : ∀ {es es' : Document} {a : σ},
      (∀ name ∈ names, es.lookup name = es'.lookup name) → tells es a → tells es' a) {a : σ}
    (hread : ∃ es, entriesOf names t? = some es ∧ tells es a) :
    ∃ es, entriesOf names t?' = some es ∧ tells es a := by
  rcases h with rfl | ⟨es, es', rfl, rfl, hlookup⟩
  · exact hread
  · obtain ⟨fs, hfs, hread⟩ := hread
    obtain rfl := Option.some.inj hfs
    exact ⟨es', rfl, htells hlookup hread⟩

theorem Server.Tells.congr {es es' : Document} {s : Server}
    (h : ∀ name ∈ ["name", "metrics_port"], es.lookup name = es'.lookup name) (hs : s.Tells es) :
    s.Tells es' := by
  obtain ⟨hname, hport, hle⟩ := hs
  rw [h _ (by simp)] at hname hport
  exact ⟨hname, hport, hle⟩

theorem Database.Tells.congr {es es' : Document} {s : Database}
    (h : ∀ name ∈ ["path"], es.lookup name = es'.lookup name) (hs : s.Tells es) :
    s.Tells es' := by
  obtain ⟨hpath⟩ := hs
  rw [h _ (by simp)] at hpath
  exact ⟨hpath⟩

theorem Stats.Tells.congr {es es' : Document} {s : Stats}
    (h : ∀ name ∈ ["collection_interval", "fetch_timeout"], es.lookup name = es'.lookup name)
    (hs : s.Tells es) : s.Tells es' := by
  obtain ⟨hinterval, hinterval_lt, htimeout, htimeout_lt⟩ := hs
  rw [h _ (by simp)] at hinterval htimeout
  exact ⟨hinterval, hinterval_lt, htimeout, htimeout_lt⟩

theorem Declares.of_same {d d' : Document} {s : Settings} (h : Declares d s)
    (hsame : ∀ key names, (key, names) ∈ schema →
      SameSection names (d.lookup key) (d'.lookup key)) : Declares d' s where
  server := (hsame "server" _ (by simp [schema])).read Server.Tells Server.Tells.congr h.server
  database := (hsame "database" _ (by simp [schema])).read Database.Tells Database.Tells.congr
    h.database
  stats := (hsame "stats" _ (by simp [schema])).read Stats.Tells Stats.Tells.congr h.stats

/-- One change leaves alone what the document says. -/
theorem Edit.declares_iff {d d' : Document} (h : Edit d d') (hd : Tame d) (s : Settings) :
    Declares d s ↔ Declares d' s := by
  constructor
  · intro hs
    exact hs.of_same fun _ _ hkey => h.sameSection hd hkey
  · intro hs
    exact hs.of_same fun _ _ hkey => (h.sameSection hd hkey).symm

/-- **Changes leave alone what the document says**, however many there are, and also if they are
taken back. -/
theorem declares_of_edits {d d' : Document} (h : EqvGen Edit d d') :
    (Tame d ↔ Tame d') ∧ (Tame d → ∀ s, Declares d s ↔ Declares d' s) := by
  induction h with
  | rel d d' h => exact ⟨h.tame_iff, h.declares_iff⟩
  | refl d => exact ⟨Iff.rfl, fun _ _ => Iff.rfl⟩
  | symm d d' _ ih =>
      obtain ⟨htame, hsame⟩ := ih
      exact ⟨htame.symm, fun hd' s => (hsame (htame.mpr hd') s).symm⟩
  | trans d d' d'' _ _ ih ih' =>
      obtain ⟨htame, hsame⟩ := ih
      obtain ⟨htame', hsame'⟩ := ih'
      exact ⟨htame.trans htame',
        fun hd s => (hsame hd s).trans (hsame' (htame.mp hd) s)⟩

/-! ## Loading -/

/-- The same settings, or refused for the same reason: both for the shape of a value, or both
for the same violations. -/
def SameOutcome : Except LoadError Settings → Except LoadError Settings → Prop
  | .ok s, .ok s' => s = s'
  | .error (.shape _ _), .error (.shape _ _) => True
  | .error (.invalid vs), .error (.invalid vs') => vs = vs'
  | _, _ => False

/-- **A document is settled by what it says**: by validating that, or by being refused for a shape
if it says nothing. -/
theorem settled_cases (existing : String → Bool) (text : String)
    {es : List (String × Span × Value)} (hes : (Tree.table (entryTrees es)).Valid) :
    (∃ s, Declares (entryTrees es) s ∧
      settled existing text es = (validate existing s).mapError .invalid) ∨
    ((¬ ∃ s, Declares (entryTrees es) s) ∧
      ∃ m, settled existing text es = .error (.shape text m)) := by
  unfold settled
  cases h : ofEntries es with
  | ok s => exact .inl ⟨s, (ofEntries_iff hes).mp h, rfl⟩
  | error m =>
      refine .inr ⟨?_, m, rfl⟩
      rintro ⟨s, hs⟩
      rw [(ofEntries_iff hes).mpr hs] at h
      cases h

/-- The value that a document has for a setting. -/
def setting? (d : Document) (key name : String) : Option Tree := do
  let names ← schema.lookup key
  let es ← entriesOf names (d.lookup key)
  es.lookup name

theorem setting?_eq {d es : Document} {key : String} {names : List String}
    (hkey : (key, names) ∈ schema) (hes : entriesOf names (d.lookup key) = some es)
    (name : String) : setting? d key name = es.lookup name := by
  have hnames : schema.lookup key = some names := by
    simp only [schema, List.mem_cons, List.not_mem_nil, or_false, Prod.mk.injEq] at hkey
    rcases hkey with ⟨rfl, rfl⟩ | ⟨rfl, rfl⟩ | ⟨rfl, rfl⟩ <;> rfl
  rw [setting?, hnames]
  show (entriesOf names (d.lookup key)).bind (fun es => es.lookup name) = _
  rw [hes]
  rfl

/-- The integers that settings take, from zero up to a greatest one. -/
def ranges : List ((String × String) × Int) := [
  (("server", "metrics_port"), 65535),
  (("stats", "collection_interval"), Nat.pow 2 63 - 1),
  (("stats", "fetch_timeout"), Nat.pow 2 63 - 1)]

theorem Reads.integer {default m : Nat} {n : Int} {written : Option Tree}
    (h : Reads (fun n : Nat => .integer n) default written m) (hn : written = some (.integer n)) :
    n = m := by
  obtain rfl := hn
  exact Tree.integer.inj h

/-- Only integers in the range of their setting are taken. -/
theorem Declares.in_range {d : Document} {s : Settings} (h : Declares d s) {key name : String}
    {greatest n : Int} (hrange : ((key, name), greatest) ∈ ranges)
    (hn : setting? d key name = some (.integer n)) : 0 ≤ n ∧ n ≤ greatest := by
  simp only [ranges, List.mem_cons, List.not_mem_nil, or_false, Prod.mk.injEq] at hrange
  obtain ⟨server, hserver, htells⟩ := h.server
  obtain ⟨stats, hstats, htells'⟩ := h.stats
  rcases hrange with ⟨⟨rfl, rfl⟩, rfl⟩ | ⟨⟨rfl, rfl⟩, rfl⟩ | ⟨⟨rfl, rfl⟩, rfl⟩
  · rw [setting?_eq (by simp [schema]) hserver] at hn
    have heq := htells.metricsPort.integer hn
    have hle := htells.metricsPort_le
    omega
  · rw [setting?_eq (by simp [schema]) hstats] at hn
    have heq := htells'.collectionInterval.integer hn
    have hlt := htells'.collectionInterval_lt
    omega
  · rw [setting?_eq (by simp [schema]) hstats] at hn
    have heq := htells'.fetchTimeout.integer hn
    have hlt := htells'.fetchTimeout_lt
    omega

/-- Documents that say the same are settled the same way. -/
theorem settled_of_declares (existing : String → Bool) (text text' : String)
    {es es' : List (String × Span × Value)} (hes : (Tree.table (entryTrees es)).Valid)
    (hes' : (Tree.table (entryTrees es')).Valid)
    (hsame : ∀ s, Declares (entryTrees es) s ↔ Declares (entryTrees es') s) :
    SameOutcome (settled existing text es) (settled existing text' es') := by
  rcases settled_cases existing text hes with ⟨s, hs, h⟩ | ⟨hnone, m, h⟩
  · rcases settled_cases existing text' hes' with ⟨s', hs', h'⟩ | ⟨hnone', m', h'⟩
    · -- a document says one thing at most
      have heq : s = s' := by
        have hok := (ofEntries_iff hes').mpr ((hsame s).mp hs)
        rw [(ofEntries_iff hes').mpr hs'] at hok
        exact (Except.ok.inj hok).symm
      rw [h, h', heq]
      cases validate existing s' <;> simp [Except.mapError, SameOutcome]
    · exact absurd ⟨s, (hsame s).mp hs⟩ hnone'
  · rcases settled_cases existing text' hes' with ⟨s', hs', h'⟩ | ⟨hnone', m', h'⟩
    · exact absurd ⟨s', (hsame s').mpr hs'⟩ hnone
    · rw [h, h']
      exact True.intro

theorem settled_same (existing : String → Bool) (text text' : String)
    {es es' : List (String × Span × Value)} (hes : (Tree.table (entryTrees es)).Valid)
    (hes' : (Tree.table (entryTrees es')).Valid)
    (hedits : EqvGen Edit (entryTrees es) (entryTrees es')) :
    SameOutcome (settled existing text es) (settled existing text' es') :=
  settled_of_declares existing text text' hes hes'
    ((declares_of_edits hedits).2 (tame_of_valid hes))

/-- Only a text that is not read is refused for its syntax. -/
theorem parse_eq_syntactic {existing : String → Bool} {text : String} :
    parse existing text = .error .syntactic ↔ Toml.parse text = none := by
  constructor
  · intro h
    cases hes : Toml.parse text with
    | none => rfl
    | some es =>
        rw [parse_eq_settled hes] at h
        rcases settled_cases existing text (Toml.parse_valid hes) with ⟨s, -, hs⟩ | ⟨-, m, hm⟩
        · rw [hs] at h
          cases hv : validate existing s <;> simp [hv, Except.mapError] at h
        · rw [hm] at h
          cases h
  · intro h
    rw [parse, h]

/-- **The order of keys and keys that nobody asks for mean nothing.** Two documents that differ in
nothing else give the same settings, or are refused at the same stage, with the same violations; so
do two texts that are read as such documents. Settings that come of a document are what it says, its
values and the defaults of what it leaves out, and an integer outside the range of its setting has
it refused. A text is refused for its syntax exactly if it is not read. -/
theorem order_and_unknown_keys_mean_nothing (existing : String → Bool) :
    (∀ (es es' : List (String × Span × Value)) (text text' : String),
      (Tree.table (entryTrees es)).Valid → (Tree.table (entryTrees es')).Valid →
      EqvGen Edit (entryTrees es) (entryTrees es') →
      SameOutcome (settled existing text es) (settled existing text' es')) ∧
    (∀ (text text' : String) (es es' : List (String × Span × Value)),
      Toml.parse text = some es → Toml.parse text' = some es' →
      EqvGen Edit (entryTrees es) (entryTrees es') →
      SameOutcome (parse existing text) (parse existing text')) ∧
    (∀ (text : String) (s : Settings), parse existing text = .ok s ↔
      ∃ es, Toml.parse text = some es ∧ Declares (entryTrees es) s ∧ Legal existing s) ∧
    (∀ (text : String) (es : List (String × Span × Value)) (key name : String) (greatest n : Int),
      Toml.parse text = some es → ((key, name), greatest) ∈ ranges →
      setting? (entryTrees es) key name = some (.integer n) → ¬ (0 ≤ n ∧ n ≤ greatest) →
      ∃ m, parse existing text = .error (.shape text m)) ∧
    ∀ text : String, parse existing text = .error .syntactic ↔ Toml.parse text = none := by
  refine ⟨?_, ?_, ?_, ?_, fun text => parse_eq_syntactic⟩
  · intro es es' text text' hes hes' hedits
    exact settled_same existing text text' hes hes' hedits
  · intro text text' es es' hparse hparse' hedits
    rw [parse_eq_settled hparse, parse_eq_settled hparse']
    exact settled_same existing text text' (Toml.parse_valid hparse) (Toml.parse_valid hparse')
      hedits
  · intro text s
    rw [parse_eq_ok]
    constructor
    · rintro ⟨es, hparse, hok, hlegal⟩
      exact ⟨es, hparse, (ofEntries_iff (Toml.parse_valid hparse)).mp hok, hlegal⟩
    · rintro ⟨es, hparse, hs, hlegal⟩
      exact ⟨es, hparse, (ofEntries_iff (Toml.parse_valid hparse)).mpr hs, hlegal⟩
  · intro text es key name greatest n hparse hrange hn hout
    rw [parse_eq_settled hparse]
    rcases settled_cases existing text (Toml.parse_valid hparse) with ⟨s, hs, -⟩ | ⟨-, m, h⟩
    · exact absurd (hs.in_range hrange hn) hout
    · exact ⟨m, h⟩

/-- Sections change places, one of them its keys, and keys are added at the top and inside the
other: both documents have the time-out of zero as their only violation, as trees and as texts. The
settings of a third text are what it says, and a port out of range has a fourth refused. -/
theorem zero_timeout_in_two_orders :
    let span : Span := ⟨0, 0⟩
    let server := [("name", span, Value.string "a"), ("metrics_port", span, Value.integer 0)]
    let stats := [("fetch_timeout", span, Value.integer 0)]
    let es := [("server", span, Value.table server), ("stats", span, Value.table stats)]
    let es' := [("extra", span, Value.boolean true),
      ("stats", span, Value.table (("unit", span, Value.moment) :: stats)),
      ("server", span, Value.table server.reverse)]
    let text := "[server]\nname = \"a\"\nmetrics_port = 0\n[stats]\nfetch_timeout = 0"
    let text' := "extra = true\n[stats]\nunit = 1979-05-27\nfetch_timeout = 0\n" ++
      "[server]\nmetrics_port = 0\nname = \"a\""
    SameOutcome (settled (fun _ => true) "" es) (settled (fun _ => true) "" es') ∧
      settled (fun _ => true) "" es = .error (.invalid [.zeroTimeout]) ∧
      SameOutcome (parse (fun _ => true) text) (parse (fun _ => true) text') ∧
      parse (fun _ => true) text = .error (.invalid [.zeroTimeout]) ∧
      (∃ d, Declares d { server := { metricsPort := 7 } }) ∧
      (∃ m, parse (fun _ => true) "server.metrics_port = 65536" =
        .error (.shape "server.metrics_port = 65536" m)) ∧
      parse (fun _ => true) "server" = .error .syntactic := by
  intro span server stats es es' text text'
  obtain ⟨htrees, htexts, hmeaning, hrange, hunread⟩ :=
    order_and_unknown_keys_mean_nothing fun _ => true
  have hname : (Tree.string "a").Valid := .string "a"
  have hzero : (Tree.integer 0).Valid := .integer (by decide) (by decide)
  have hes : (Tree.table (entryTrees es)).Valid := by
    refine .table (by decide) (List.forall_mem_cons.mpr ⟨?_, List.forall_mem_singleton.mpr ?_⟩)
    · exact .table (by decide)
        (List.forall_mem_cons.mpr ⟨hname, List.forall_mem_singleton.mpr hzero⟩)
    · exact .table (by decide) (List.forall_mem_singleton.mpr hzero)
  have hes' : (Tree.table (entryTrees es')).Valid := by
    refine .table (by decide) (List.forall_mem_cons.mpr ⟨.boolean true,
      List.forall_mem_cons.mpr ⟨?_, List.forall_mem_singleton.mpr ?_⟩⟩)
    · exact .table (by decide)
        (List.forall_mem_cons.mpr ⟨.moment, List.forall_mem_singleton.mpr hzero⟩)
    · exact .table (by decide)
        (List.forall_mem_cons.mpr ⟨hzero, List.forall_mem_singleton.mpr hname⟩)
  have hserver : ("server", ["name", "metrics_port"]) ∈ schema := by simp [schema]
  have hstats : ("stats", ["collection_interval", "fetch_timeout"]) ∈ schema := by simp [schema]
  let tables : Document := [("metrics_port", .integer 0), ("name", .string "a")]
  let cadence : Document := [("fetch_timeout", .integer 0)]
  have hkeys : Edit (entryTrees es) [("server", .table tables), ("stats", .table cadence)] :=
    .inside [] [("stats", .table cadence)] hserver (.reorder (List.Perm.swap _ _ _))
  have hsections : Edit [("server", .table tables), ("stats", .table cadence)]
      [("stats", .table cadence), ("server", .table tables)] :=
    .top (.reorder (List.Perm.swap _ _ _))
  have hunit : Edit [("stats", .table cadence), ("server", .table tables)]
      [("stats", .table (("unit", .moment) :: cadence)), ("server", .table tables)] :=
    .inside [] [("server", .table tables)] hstats (.add [] cadence .moment (by decide))
  have hextra : Edit [("stats", .table (("unit", .moment) :: cadence)), ("server", .table tables)]
      (entryTrees es') :=
    .top (.add [] _ (.boolean true) (by decide))
  have hedits : EqvGen Edit (entryTrees es) (entryTrees es') :=
    .trans _ _ _ (.rel _ _ hkeys) (.trans _ _ _ (.rel _ _ hsections)
      (.trans _ _ _ (.rel _ _ hunit) (.rel _ _ hextra)))
  refine ⟨htrees es es' "" "" hes hes' hedits, rfl, ?_, by decide +kernel, ?_, ?_,
    (hunread "server").mpr (Option.isNone_iff_eq_none.mp (by decide +kernel))⟩
  · -- the texts are read as the two trees
    have hread : (Toml.parse text).map entryTrees = some (entryTrees es) := by
      decide +kernel
    have hread' : (Toml.parse text').map entryTrees = some (entryTrees es') := by
      decide +kernel
    obtain ⟨ds, hds, heq⟩ := Option.map_eq_some_iff.mp hread
    obtain ⟨ds', hds', heq'⟩ := Option.map_eq_some_iff.mp hread'
    exact htexts text text' ds ds' hds hds' (by rw [heq, heq']; exact hedits)
  · obtain ⟨ds, -, hds, -⟩ :=
      (hmeaning "server.metrics_port = 7" { server := { metricsPort := 7 } }).mp (by decide +kernel)
    exact ⟨entryTrees ds, hds⟩
  · have hread : (Toml.parse "server.metrics_port = 65536").map entryTrees =
        some [("server", .table [("metrics_port", .integer 65536)])] := by
      decide +kernel
    obtain ⟨ds, hds, heq⟩ := Option.map_eq_some_iff.mp hread
    refine hrange _ ds "server" "metrics_port" 65535 65536 hds (by simp [ranges]) ?_ (by decide)
    rw [heq]
    rfl

/-- Without both texts being read they need not agree. A value may be nested 79 deep under a key
that nobody asks for; one deeper has the text refused, although nobody looks at it. -/
theorem unknown_key_too_deep :
    let nested (depth : Nat) := String.ofList (List.replicate depth '[' ++ List.replicate depth ']')
    parse (fun _ => true) "" = .ok {} ∧
      parse (fun _ => true) ("x = " ++ nested 79) = .ok {} ∧
      parse (fun _ => true) ("x = " ++ nested 80) = .error .syntactic := by
  intro nested
  exact ⟨by decide +kernel, by decide +kernel, by decide +kernel⟩

end AccountCensus.Settings
