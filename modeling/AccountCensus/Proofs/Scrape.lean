import AccountCensus.Proofs.Callers

/-!
# Scraping the exposition text

A scraper splits the text at its line feeds, reads each line on its own, knowing nothing of the
lines around it, and puts what it read together to blocks. It gets back the metrics that are
registered and nothing else (`scrape_exposition`), whatever the help texts say: an escaped help
has no line feed (`lineFeed_not_mem_escapeHelp`), so it cannot begin a line, and it can be taken
back (`unescapeHelp_escapeHelp`).

The text is all or nothing. The encoder writes family after family and stops at the one that it
cannot write; what it has written by then is dropped (`exposition_eq_kept`).
-/

namespace AccountCensus.Gauge

/-! ## Help texts -/

/-- Takes an escape back. A backslash that begins no escape refuses the text. -/
def unescapeHelp : List Char → Option (List Char)
  | [] => some []
  | '\\' :: '\\' :: cs => (unescapeHelp cs).map ('\\' :: ·)
  | '\\' :: 'n' :: cs => (unescapeHelp cs).map ('\n' :: ·)
  | c :: cs => if c = '\\' then none else (unescapeHelp cs).map (c :: ·)

theorem unescapeHelp_plain {c : Char} (h : c ≠ '\\') (cs : List Char) :
    unescapeHelp (c :: cs) = (unescapeHelp cs).map (c :: ·) := by
  rw [unescapeHelp.eq_4 _ _ (fun _ hc _ => h hc) (fun _ hc _ => h hc), if_neg h]

/-- **An escaped help can be taken back**, so no two help texts are escaped alike. -/
theorem unescapeHelp_escapeHelp (help : List Char) :
    unescapeHelp (escapeHelp help) = some help := by
  induction help with
  | nil => rfl
  | cons c cs ih =>
      have hcons : escapeHelp (c :: cs) =
          (if c = '\\' then ['\\', '\\'] else if c = '\n' then ['\\', 'n'] else [c]) ++
            escapeHelp cs := rfl
      rw [hcons]
      by_cases hback : c = '\\'
      · simp [hback, unescapeHelp, ih]
      · by_cases hfeed : c = '\n'
        · simp [hfeed, unescapeHelp, ih]
        · simp [hback, hfeed, unescapeHelp_plain hback, ih]

theorem lineFeed_not_mem_escapeHelp (help : List Char) : '\n' ∉ escapeHelp help := by
  intro h
  obtain ⟨c, -, hc⟩ := List.mem_flatMap.mp h
  split at hc
  · simp at hc
  · split at hc
    · simp at hc
    · rename_i hfeed
      exact hfeed (List.mem_singleton.mp hc).symm

/-! ## Names and values -/

def isNameStart (c : Char) : Bool := c.isAlpha || c == '_' || c == ':'

def isNameChar (c : Char) : Bool := c.isAlphanum || c == '_' || c == ':'

/-- A name that a metric may have: letters, digits, underscores and colons, and no digit in
front. -/
def IsName (name : String) : Prop :=
  name.toList.head?.any isNameStart = true ∧ name.toList.all isNameChar = true

instance (name : String) : Decidable (IsName name) :=
  inferInstanceAs (Decidable (_ = true ∧ _ = true))

theorem IsName.of_mem {name : String} {c : Char} (h : IsName name) (hc : c ∈ name.toList) :
    isNameChar c :=
  List.all_eq_true.mp h.2 c hc

theorem IsName.not_mem {name : String} {c : Char} (h : IsName name) (hc : isNameChar c = false) :
    c ∉ name.toList := by
  intro hmem
  rw [h.of_mem hmem] at hc
  cases hc

theorem IsName.exists_cons {name : String} (h : IsName name) :
    ∃ c cs, name.toList = c :: cs ∧ c ≠ '#' := by
  obtain ⟨c, hhead, hc⟩ := (Option.any_eq_true _ _).mp h.1
  obtain ⟨cs, hcs⟩ := List.head?_eq_some_iff.mp hhead
  refine ⟨c, cs, hcs, ?_⟩
  rintro rfl
  cases hc

theorem isAlphanum_ascii {c : Char} (h : c.isAlphanum) : c.toNat < 128 := by
  have hval : ∀ {a : Char}, c.val ≤ a.val → c.toNat ≤ a.toNat := fun h => h
  have hZ : 'Z'.toNat = 90 := rfl
  have hz : 'z'.toNat = 122 := rfl
  have h9 : '9'.toNat = 57 := rfl
  rcases Bool.or_eq_true_iff.mp h with h | hdigit
  · rcases Bool.or_eq_true_iff.mp h with hupper | hlower
    · have hle := hval (of_decide_eq_true hupper).2
      omega
    · have hle := hval (of_decide_eq_true (Bool.and_eq_true_iff.mp hlower).2)
      omega
  · have hle := hval (of_decide_eq_true (Bool.and_eq_true_iff.mp hdigit).2)
    omega

theorem isNameChar_ascii {c : Char} (h : isNameChar c) : c.toNat < 128 := by
  simp only [isNameChar, Bool.or_eq_true, beq_iff_eq] at h
  rcases h with (h | rfl) | rfl
  · exact isAlphanum_ascii h
  · decide
  · decide

theorem loginGauges_named : ∀ m ∈ loginGauges, IsName m.name := by
  decide +kernel

/-- Positional text has digits and a point. -/
theorem mem_positional {d : Number.Binary64.Decimal} {c : Char} (h : c ∈ d.positional) :
    c.isDigit ∨ c = '.' := by
  have hdigit : ∀ {c}, c ∈ Nat.toDigits 10 d.digits → c.isDigit :=
    fun hc => Nat.isDigit_of_mem_toDigits (by decide) (by decide) hc
  have hzero : ∀ {n : Nat} {c}, c ∈ List.replicate n '0' → c.isDigit :=
    fun hc => List.eq_of_mem_replicate hc ▸ rfl
  rw [Number.Binary64.Decimal.positional] at h
  split at h
  · rcases List.mem_append.mp h with hc | hc
    · exact .inl (hdigit hc)
    · exact .inl (hzero hc)
  · -- a point somewhere in the digits, with zeros in front of them
    have hpadded : ∀ {n : Nat} {c},
        c ∈ List.replicate n '0' ++ Nat.toDigits 10 d.digits → c.isDigit := by
      intro n c hc
      rcases List.mem_append.mp hc with hc | hc
      · exact hzero hc
      · exact hdigit hc
    rcases List.mem_append.mp h with hc | hc
    · exact .inl (hpadded (List.mem_of_mem_take hc))
    · rcases List.mem_cons.mp hc with rfl | hc
      · exact .inr rfl
      · exact .inl (hpadded (List.mem_of_mem_drop hc))

theorem lineFeed_not_mem_valueText (value : Int) : '\n' ∉ (valueText value).toList := by
  have hmagnitude : ∀ n, '\n' ∉ (magnitudeText n).toList := by
    intro n h
    rw [magnitudeText, String.toList_ofList] at h
    rcases mem_positional h with h | h <;> cases h
  unfold valueText
  split
  · rw [String.toList_append, List.mem_append, not_or]
    exact ⟨by decide, hmagnitude _⟩
  · exact hmagnitude _

/-! ## Lines -/

/-- What a scraper makes of one line. -/
inductive Line where
  | help (name help : String)
  | type (name : String) (kind : Kind)
  | sample (name value : String)
  /-- Anything else behind a number sign. -/
  | comment
deriving DecidableEq

def Kind.ofLabel (label : List Char) : Option Kind :=
  if label = Kind.gauge.label.toList then some .gauge
  else if label = Kind.counter.label.toList then some .counter
  else none

/-- The name up to the first blank, and what stands behind the blank. -/
def nameAndRest (cs : List Char) : Option (String × List Char) :=
  match cs.dropWhile (· ≠ ' ') with
  | [] => none
  | _ :: rest => some (String.ofList (cs.takeWhile (· ≠ ' ')), rest)

def readLine (line : String) : Option Line :=
  let cs := line.toList
  match "# HELP ".toList.isPrefixOf? cs with
  | some cs => do
    let (name, help) ← nameAndRest cs
    some (.help name (String.ofList (← unescapeHelp help)))
  | none =>
    match "# TYPE ".toList.isPrefixOf? cs with
    | some cs => do
      let (name, label) ← nameAndRest cs
      some (.type name (← Kind.ofLabel label))
    | none =>
      if cs.head? = some '#' then some .comment
      else do
        let (name, value) ← nameAndRest cs
        some (.sample name (String.ofList value))

theorem nameAndRest_append {name : String} (h : ' ' ∉ name.toList) (rest : List Char) :
    nameAndRest (name.toList ++ ' ' :: rest) = some (name, rest) := by
  have hne : ∀ c ∈ name.toList, decide (c ≠ ' ') = true := by
    intro c hc
    exact decide_eq_true fun heq => h (heq ▸ hc)
  rw [nameAndRest, List.dropWhile_append_of_pos hne, List.takeWhile_append_of_pos hne]
  simp

theorem Kind.ofLabel_label (kind : Kind) : Kind.ofLabel kind.label.toList = some kind := by
  cases kind <;> decide

section

variable {m : Metric} (hm : IsName m.name)
include hm

theorem readLine_helpLine : readLine m.helpLine = some (.help m.name m.help) := by
  have hbegin : "# HELP ".toList.isPrefixOf? m.helpLine.toList =
      some (m.name.toList ++ ' ' :: escapeHelp m.help.toList) := by
    rw [List.isPrefixOf?_eq_some_iff_append_eq]
    simp [Metric.helpLine]
  rw [readLine, hbegin]
  simp [nameAndRest_append (hm.not_mem (c := ' ') rfl), unescapeHelp_escapeHelp]

theorem readLine_typeLine : readLine m.typeLine = some (.type m.name m.kind) := by
  have hhelp : "# HELP ".toList.isPrefixOf? m.typeLine.toList = none := by
    simp [Metric.typeLine, List.isPrefixOf?]
  have htype : "# TYPE ".toList.isPrefixOf? m.typeLine.toList =
      some (m.name.toList ++ ' ' :: m.kind.label.toList) := by
    rw [List.isPrefixOf?_eq_some_iff_append_eq]
    simp [Metric.typeLine]
  rw [readLine, hhelp, htype]
  simp [nameAndRest_append (hm.not_mem (c := ' ') rfl), Kind.ofLabel_label]

/-- No name begins a comment. -/
theorem readLine_sampleLine :
    readLine m.sampleLine = some (.sample m.name (valueText m.value)) := by
  have hline : m.sampleLine.toList = m.name.toList ++ ' ' :: (valueText m.value).toList := by
    simp [Metric.sampleLine]
  have hfirst : ∀ cs, ('#' :: cs).isPrefixOf? m.sampleLine.toList = none := by
    obtain ⟨c, ds, hname, hne⟩ := hm.exists_cons
    intro cs
    simp [hline, hname, List.isPrefixOf?, hne.symm]
  have hhead : m.sampleLine.toList.head? ≠ some '#' := by
    obtain ⟨c, ds, hname, hne⟩ := hm.exists_cons
    simp [hline, hname, hne]
  have hhelp : "# HELP ".toList.isPrefixOf? m.sampleLine.toList = none := hfirst _
  have htype : "# TYPE ".toList.isPrefixOf? m.sampleLine.toList = none := hfirst _
  simp only [readLine, hhelp, htype]
  rw [if_neg hhead, hline, nameAndRest_append (hm.not_mem (c := ' ') rfl)]
  simp

/-- No line is broken in two. -/
theorem lineFeed_not_mem_lines {line : String} (h : line ∈ m.lines) : '\n' ∉ line.toList := by
  have hname : '\n' ∉ m.name.toList := hm.not_mem rfl
  have hhelp := lineFeed_not_mem_escapeHelp m.help.toList
  have hlabel : '\n' ∉ m.kind.label.toList := by
    cases m.kind <;> decide
  have hvalue := lineFeed_not_mem_valueText m.value
  simp only [Metric.lines, List.mem_cons, List.not_mem_nil, or_false] at h
  rcases h with rfl | rfl | rfl
  · simp [Metric.helpLine, hname, hhelp]
  · simp [Metric.typeLine, hname, hlabel]
  · simp [Metric.sampleLine, hname, hvalue]

end

/-! ## Texts -/

/-- The lines of a text. A line feed ends its line, so nothing stands behind the last one. -/
def linesOf (text : String) : List String :=
  let pieces := text.toList.splitOn '\n'
  let ended := if pieces.getLast? = some [] then pieces.dropLast else pieces
  ended.map String.ofList

/-- Lines without line feeds are split at the line feeds behind them, and nothing is left over. -/
theorem splitOn_join {lines : List String} (h : ∀ line ∈ lines, '\n' ∉ line.toList) :
    (String.join (lines.map (· ++ "\n"))).toList.splitOn '\n' =
      lines.map String.toList ++ [[]] := by
  have hfeeds : (String.join (lines.map (· ++ "\n"))).toList =
      List.intercalate ['\n'] (lines.map String.toList ++ [[]]) := by
    clear h
    induction lines with
    | nil => simp [List.intercalate]
    | cons line lines ih =>
        rw [List.map_cons, List.map_cons, List.cons_append,
          List.intercalate_cons_of_ne_nil (by simp), ← ih]
        simp
  rw [hfeeds, List.splitOn_intercalate]
  · intro piece hpiece
    rcases List.mem_append.mp hpiece with hpiece | hpiece
    · obtain ⟨line, hline, rfl⟩ := List.mem_map.mp hpiece
      exact h line hline
    · rw [List.mem_singleton.mp hpiece]
      exact List.not_mem_nil
  · simp

theorem linesOf_join {lines : List String} (h : ∀ line ∈ lines, '\n' ∉ line.toList) :
    linesOf (String.join (lines.map (· ++ "\n"))) = lines := by
  rw [linesOf, splitOn_join h]
  simp [Function.comp_def]

/-- What a text tells of a metric. -/
structure Block where
  name : String
  help : String
  kind : Kind
  value : String
deriving DecidableEq

/-- Puts lines together to blocks. The three lines of a block must be there, in their order and
with the same name; comments may stand between blocks. -/
def blocksOf : List Line → Option (List Block)
  | [] => some []
  | .comment :: lines => blocksOf lines
  | .help name help :: .type name' kind :: .sample name'' value :: lines =>
    if name' = name ∧ name'' = name then (blocksOf lines).map (⟨name, help, kind, value⟩ :: ·)
    else none
  | _ => none

def scrape (text : String) : Option (List Block) :=
  ((linesOf text).mapM readLine).bind blocksOf

namespace Metric

/-- What the lines of a metric say. -/
def contents (m : Metric) : List Line :=
  [.help m.name m.help, .type m.name m.kind, .sample m.name (valueText m.value)]

def block (m : Metric) : Block := ⟨m.name, m.help, m.kind, valueText m.value⟩

end Metric

theorem blocksOf_contents (ms : List Metric) :
    blocksOf (ms.flatMap Metric.contents) = some (ms.map Metric.block) := by
  induction ms with
  | nil => rfl
  | cons m ms ih =>
      have hstep : blocksOf ((m :: ms).flatMap Metric.contents) =
          (blocksOf (ms.flatMap Metric.contents)).map (m.block :: ·) := if_pos ⟨rfl, rfl⟩
      rw [hstep, ih]
      rfl

theorem mapM_readLine {ms : List Metric} (h : ∀ m ∈ ms, IsName m.name) :
    (ms.flatMap Metric.lines).mapM readLine = some (ms.flatMap Metric.contents) := by
  induction ms with
  | nil => rfl
  | cons m ms ih =>
      obtain ⟨hm, hms⟩ := List.forall_mem_cons.mp h
      have hlines : m.lines.mapM readLine = some m.contents := by
        simp [Metric.lines, Metric.contents, readLine_helpLine hm, readLine_typeLine hm,
          readLine_sampleLine hm]
      rw [List.flatMap_cons, List.mapM_append, hlines, ih hms]
      rfl

theorem length_flatMap_lines (ms : List Metric) :
    (ms.flatMap Metric.lines).length = 3 * ms.length := by
  induction ms with
  | nil => rfl
  | cons m ms ih =>
      have hthree : m.lines.length = 3 := rfl
      rw [List.flatMap_cons, List.length_append, List.length_cons, ih, hthree]
      omega

/-! ## The order of names -/

/-- A text as it is sent. -/
def bytes (s : String) : List UInt8 := s.toUTF8.data.toList

theorem bytes_ofList (cs : List Char) :
    bytes (String.ofList cs) = cs.flatMap String.utf8EncodeChar := by
  rw [bytes, String.toUTF8, String.toByteArray_ofList, List.utf8Encode,
    List.toList_data_toByteArray]

/-- Seven bits are sent as one byte. -/
theorem utf8EncodeChar_ascii {c : Char} (h : c.toNat < 128) :
    String.utf8EncodeChar c = [UInt8.ofNat c.toNat] :=
  if_pos (Nat.le_of_lt_succ h)

private theorem utf8Encode_lt {as bs : List Char} (h : as < bs)
    (has : ∀ c ∈ as, c.toNat < 128) (hbs : ∀ c ∈ bs, c.toNat < 128) :
    as.flatMap String.utf8EncodeChar < bs.flatMap String.utf8EncodeChar := by
  induction h with
  | @nil c cs =>
      rw [List.flatMap_cons, utf8EncodeChar_ascii (hbs c List.mem_cons_self)]
      exact .nil
  | @cons c as bs _ ih =>
      obtain ⟨hc, has⟩ := List.forall_mem_cons.mp has
      rw [List.flatMap_cons, List.flatMap_cons, utf8EncodeChar_ascii hc]
      exact .cons (ih has (List.forall_mem_cons.mp hbs).2)
  | @rel c as d bs hcd =>
      have hc := has c List.mem_cons_self
      have hd := hbs d List.mem_cons_self
      rw [List.flatMap_cons, List.flatMap_cons, utf8EncodeChar_ascii hc, utf8EncodeChar_ascii hd]
      refine .rel (UInt8.lt_iff_toNat_lt.mpr ?_)
      have hlt : c.toNat < d.toNat := hcd
      rw [UInt8.toNat_ofNat', UInt8.toNat_ofNat']
      omega

/-- **Names are in the order of their bytes**: letters, digits, underscores and colons are sent as
one byte each, in the same order. -/
theorem bytes_lt {a b : String} (ha : IsName a) (hb : IsName b) (h : a < b) :
    bytes a < bytes b := by
  rw [← String.ofList_toList (s := a), ← String.ofList_toList (s := b), bytes_ofList, bytes_ofList]
  exact utf8Encode_lt (String.lt_iff.mp h) (fun c hc => isNameChar_ascii (ha.of_mem hc))
    fun c hc => isNameChar_ascii (hb.of_mem hc)

/-! ## Registries -/

namespace Registry

/-- All names are names that a metric may have, and no two are the same. -/
structure Named (r : Registry) : Prop where
  valid : ∀ name ∈ r.names, IsName name
  nodup : r.names.Nodup

theorem Named.withLogin {r : Registry} (h : r.Named) (hfree : r.Free loginGauges) (t : Tally) :
    (r.withLogin t).Named where
  valid := by
    rw [withLogin_names]
    intro name hname
    rcases List.mem_append.mp hname with hname | hname
    · exact h.valid name hname
    · obtain ⟨g, hg, rfl⟩ := List.mem_map.mp hname
      exact loginGauges_named g hg
  nodup := withLogin_nodup hfree h.nodup t

theorem sorted_perm (r : Registry) : r.sorted.Perm r.metrics := List.mergeSort_perm _ _

/-- The text ends every line of the sorted metrics, and nothing else. -/
theorem exposition_eq {r : Registry} (hb : r.broken = false) :
    r.exposition = String.join ((r.sorted.flatMap Metric.lines).map (· ++ "\n")) := by
  rw [exposition, lines, hb, if_neg Bool.false_ne_true]

theorem exposition_of_broken {r : Registry} (hb : r.broken = true) : r.exposition = "" := by
  rw [exposition, lines, hb, if_pos rfl]
  rfl

variable {r : Registry} (hr : r.Named)
include hr

theorem Named.of_mem_sorted {m : Metric} (hm : m ∈ r.sorted) : IsName m.name :=
  hr.valid _ (List.mem_map_of_mem (r.sorted_perm.mem_iff.mp hm))

/-- The blocks ascend strictly, since no two metrics have the same name. -/
theorem Named.sorted_ascends : r.sorted.Pairwise fun a b => bytes a.name < bytes b.name := by
  have hle : r.sorted.Pairwise fun a b => decide (a.name ≤ b.name) = true := by
    apply List.pairwise_mergeSort
    · intro a b c hab hbc
      exact decide_eq_true (String.le_trans (of_decide_eq_true hab) (of_decide_eq_true hbc))
    · intro a b
      simpa using String.le_total a.name b.name
  have hne : r.sorted.Pairwise fun a b => a.name ≠ b.name := by
    rw [← List.pairwise_map]
    exact (r.sorted_perm.map Metric.name).nodup_iff.mpr hr.nodup
  refine (hle.and hne).imp_of_mem ?_
  rintro a b ha hb ⟨hab, hne⟩
  refine bytes_lt (hr.of_mem_sorted ha) (hr.of_mem_sorted hb) (String.not_le.mp fun hba => ?_)
  exact hne (String.le_antisymm (of_decide_eq_true hab) hba)

theorem Named.linesOf_exposition (hb : r.broken = false) :
    linesOf r.exposition = r.sorted.flatMap Metric.lines := by
  rw [exposition_eq hb, linesOf_join]
  intro line hline
  obtain ⟨m, hm, hline⟩ := List.mem_flatMap.mp hline
  exact lineFeed_not_mem_lines (hr.of_mem_sorted hm) hline

theorem Named.mapM_readLine (hb : r.broken = false) :
    (linesOf r.exposition).mapM readLine = some (r.sorted.flatMap Metric.contents) := by
  rw [hr.linesOf_exposition hb]
  exact Gauge.mapM_readLine fun m hm => hr.of_mem_sorted hm

/-- **The round trip**: a scraper gets back exactly the metrics that are registered. -/
theorem Named.scrape_exposition (hb : r.broken = false) :
    scrape r.exposition = some (r.sorted.map Metric.block) := by
  rw [scrape, hr.mapM_readLine hb]
  exact blocksOf_contents _

end Registry

/-! ## Complete or empty -/

/-- What a collector has for the encoder. -/
inductive Family where
  | named (m : Metric)
  /-- Nothing that can be written. -/
  | nameless

def Family.metric? : Family → Option Metric
  | .named m => some m
  | .nameless => none

/-- Writes families behind a text, up to the first that cannot be written. Tells whether it came
to the end. -/
def encode (written : String) : List Family → String × Bool
  | [] => (written, true)
  | .nameless :: _ => (written, false)
  | .named m :: families => encode (written ++ String.join (m.lines.map (· ++ "\n"))) families

/-- A text that was not written to its end is dropped. -/
def kept : String × Bool → String
  | (text, true) => text
  | (_, false) => ""

theorem encode_nameless {families : List Family} (h : .nameless ∈ families) (written : String) :
    (encode written families).2 = false := by
  induction families generalizing written with
  | nil => cases h
  | cons family families ih =>
      cases family with
      | nameless => rfl
      | named m =>
          rcases List.mem_cons.mp h with h | h
          · cases h
          · exact ih h _

theorem encode_named {families : List Family} (h : .nameless ∉ families) (written : String) :
    encode written families =
      (written ++ String.join
        (((families.filterMap Family.metric?).flatMap Metric.lines).map (· ++ "\n")), true) := by
  induction families generalizing written with
  | nil => simp [encode]
  | cons family families ih =>
      cases family with
      | nameless => exact absurd List.mem_cons_self h
      | named m =>
          rw [encode, ih fun hmem => h (List.mem_cons_of_mem _ hmem)]
          simp [Family.metric?, String.append_assoc]

/-- **The text is that of a run of the encoder, or empty**, wherever among the sorted metrics the
encoder comes to what it cannot write. -/
theorem Registry.exposition_eq_kept {r : Registry} {families : List Family}
    (hsorted : families.filterMap Family.metric? = r.sorted)
    (hbroken : .nameless ∈ families ↔ r.broken) :
    r.exposition = kept (encode "" families) := by
  cases hb : r.broken with
  | true =>
      have hstops := encode_nameless (hbroken.mpr hb) ""
      rw [exposition_of_broken hb]
      generalize encode "" families = run at hstops
      obtain ⟨written, ended⟩ := run
      cases hstops
      rfl
  | false =>
      have hnone : .nameless ∉ families := by
        rw [hbroken, hb]
        exact Bool.false_ne_true
      rw [exposition_eq hb, encode_named hnone, hsorted, kept, String.empty_append]

/-! ## Gathering -/

/-- At any time of a session the registry is the foreign one, or has the login gauges too. -/
theorem Session.registry_after (r : Registry) (calls : List Call) :
    (after r calls).metrics.registry = r ∨
      r.Free loginGauges ∧ ∃ t, (after r calls).metrics.registry = r.withLogin t := by
  by_cases hfree : r.Free loginGauges
  · have h := shows_of_free hfree calls
    by_cases hl : (Ledger.ofCalls calls).callers = 0
    · exact .inl (by rw [(h.unasked hl).1])
    · exact .inr ⟨hfree, _, by rw [h.asked hl]⟩
  · exact .inl (refuses_of_taken hfree calls).registry

theorem Session.named_after {r : Registry} (hr : r.Named) (calls : List Call) :
    (after r calls).metrics.registry.Named ∧
      (after r calls).metrics.registry.broken = r.broken := by
  rcases registry_after r calls with h | ⟨hfree, t, h⟩
  · rw [h]
    exact ⟨hr, rfl⟩
  · rw [h]
    exact ⟨hr.withLogin hfree t, rfl⟩

/-- **What is gathered is complete or empty, and can be read back.** At any time of a session the
text has three lines for each metric that is registered then, the metrics in strictly ascending
order of the bytes of their names, and a scraper reads exactly their names, helps, kinds and
values off it. With a broken collector the text is empty, wherever the encoder comes to it. -/
theorem gathered_text_reads_back {r : Registry} (hr : r.Named) (calls : List Call) :
    let gathered := (Session.after r calls).metrics.registry
    let text := gathered.exposition
    (r.broken = false →
      (linesOf text).length = 3 * gathered.metrics.length ∧
      ∃ ms : List Metric, ms.Perm gathered.metrics ∧
        ms.Pairwise (fun a b => bytes a.name < bytes b.name) ∧
        linesOf text = ms.flatMap Metric.lines ∧
        (linesOf text).mapM readLine = some (ms.flatMap Metric.contents) ∧
        scrape text = some (ms.map Metric.block)) ∧
    (r.broken = true → text = "") ∧
    ∀ families : List Family, families.filterMap Family.metric? = gathered.sorted →
      (.nameless ∈ families ↔ r.broken) → text = kept (encode "" families) := by
  intro gathered text
  obtain ⟨hnamed, hbroken⟩ : gathered.Named ∧ gathered.broken = r.broken :=
    Session.named_after hr calls
  rw [← hbroken]
  refine ⟨fun hb => ⟨?_, gathered.sorted, gathered.sorted_perm, hnamed.sorted_ascends,
    hnamed.linesOf_exposition hb, hnamed.mapM_readLine hb, hnamed.scrape_exposition hb⟩,
    fun hb => ?_, fun families => Registry.exposition_eq_kept⟩
  · rw [hnamed.linesOf_exposition hb, length_flatMap_lines, gathered.sorted_perm.length_eq]
  · exact Registry.exposition_of_broken hb

/-- Helps that look like samples and comments, have a backslash before an n and end with one.
Beside the login gauges they forge nothing, and both are read back. -/
theorem gathered_text_with_hostile_helps :
    let up : Metric := ⟨"up", "ends\nup 1\n# TYPE up counter", .counter, 7⟩
    let low : Metric := ⟨"_:9", "a \\n is no line feed\\", .gauge, -3⟩
    let r : Registry := { metrics := [up, low] }
    let text := (Session.after r [.request, .set 0 ⟨4, 9⟩]).metrics.registry.exposition
    r.Named ∧ r.broken = false ∧ (linesOf text).length = 15 ∧
      ∃ blocks, scrape text = some blocks ∧ blocks.length = 5 ∧ up.block ∈ blocks ∧
        low.block ∈ blocks := by
  intro up low r text
  have hr : r.Named := ⟨by decide +kernel, by decide⟩
  obtain ⟨hlength, ms, hperm, -, -, -, hscrape⟩ :=
    (gathered_text_reads_back hr [.request, .set 0 ⟨4, 9⟩]).1 rfl
  have hcount :
      (Session.after r [.request, .set 0 ⟨4, 9⟩]).metrics.registry.metrics.length = 5 := by
    decide +kernel
  have hmem : up ∈ (Session.after r [.request, .set 0 ⟨4, 9⟩]).metrics.registry.metrics ∧
      low ∈ (Session.after r [.request, .set 0 ⟨4, 9⟩]).metrics.registry.metrics := by
    decide +kernel
  rw [hcount] at hlength
  refine ⟨hr, rfl, hlength, ms.map Metric.block, hscrape, ?_,
    List.mem_map_of_mem (hperm.mem_iff.mpr hmem.1), List.mem_map_of_mem (hperm.mem_iff.mpr hmem.2)⟩
  rw [List.length_map, hperm.length_eq, hcount]

end AccountCensus.Gauge
