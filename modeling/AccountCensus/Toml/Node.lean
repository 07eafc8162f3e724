import AccountCensus.Toml.Value

/-!
# Tables under construction

Several lines of a document can add to one table, and what a line may add to depends on how the
table came about: by a header, by being named in a header of a table inside it, or by a dotted
key. `within` walks along a path and changes the entries at its end, making the tables that are
missing; `assign` adds the value of a key, and `Node.placed` reads off the finished value.
-/

namespace AccountCensus.Toml

structure Key where
  name : String
  span : Span
deriving DecidableEq, Repr, Inhabited

/-- How a table came about. -/
inductive Origin where
  /-- By its own header, at a place that reaches to its last value. -/
  | header (span : Span)
  /-- As part of the path in the header of another table. -/
  | path
  /-- As part of a dotted key. -/
  | dotted
deriving DecidableEq, Repr, Inhabited

def Origin.isHeader : Origin → Bool
  | .header _ => true
  | _ => false

inductive Node where
  | value (span : Span) (value : Value)
  | table (origin : Origin) (entries : List (Key × Node))
  /-- An array of tables, each with its own header. -/
  | tables (elements : List (Span × List (Key × Node)))
deriving Inhabited

/-- The entries of a table, in the order in which they were made. -/
abbrev Entries := List (Key × Node)

namespace Entries

/-- The node under a name. -/
def node? : Entries → String → Option Node
  | [], _ => none
  | (k, n) :: es, name => if k.name == name then some n else node? es name

def replace (es : Entries) (name : String) (node : Node) : Entries :=
  List.map (fun (k, n) => if k.name == name then (k, node) else (k, n)) es

def remove (es : Entries) (name : String) : Entries :=
  List.filter (fun (k, _) => k.name != name) es

end Entries

/-- Changes the entries at the end of a path; `f` is also told how their table came about. The
last table stands for an array of tables. Where the path leads into a value there is no such
table, and a dotted key does not reach into a table that has a header. -/
def within (dotted : Bool) (f : Origin → Entries → Option Entries) :
    Origin → List Key → Entries → Option Entries
  | origin, [], es => f origin es
  | _, k :: ks, es =>
    match Entries.node? es k.name with
    | none => do
      let made : Origin := if dotted then .dotted else .path
      let inner ← within dotted f made ks []
      some (es ++ [(k, .table made inner)])
    | some (.value ..) => none
    | some (.table origin inner) =>
      if dotted && origin.isHeader then none
      else do
        let inner ← within dotted f origin ks inner
        some (Entries.replace es k.name (.table origin inner))
    | some (.tables elements) => do
      let (span, inner) ← elements.getLast?
      let inner ← within dotted f (.header span) ks inner
      some (Entries.replace es k.name (.tables (elements.dropLast ++ [(span, inner)])))

/-- A key, perhaps dotted, and its value. -/
structure Assignment where
  path : List Key
  key : Key
  span : Span
  value : Value
deriving Inhabited

/-- Adds a value. Its key must be new, and a dotted key adds only to tables of dotted keys. -/
def assign (es : Entries) (a : Assignment) : Option Entries :=
  within true
    (fun origin inner =>
      if !a.path.isEmpty && origin != .dotted then none
      else if (Entries.node? inner a.key.name).isSome then none
      else some (inner ++ [(a.key, .value a.span a.value)]))
    .dotted a.path es

def assignAll (es : Entries) (as : List Assignment) : Option Entries := as.foldlM assign es

/-! ## The finished value -/

/-- From the beginning of the first place to the end of the last. -/
def hull : List Span → Span
  | [] => ⟨0, 0⟩
  | s :: ss => ⟨s.left, (ss.getLastD s).rest⟩

def Origin.spanOr (key : Span) : Origin → Span
  | .header span => span
  | _ => key

mutual

/-- The value of a node under a key, with its place. -/
def Node.placed (key : Span) : Node → Span × Value
  | .value span v => (span, v)
  | .table origin es => (origin.spanOr key, .table (placedEntries es))
  | .tables elements => (hull (elements.map (·.1)), .array (placedElements elements))

def placedEntries : List (Key × Node) → List (String × Span × Value)
  | [] => []
  | (k, node) :: es => (k.name, node.placed k.span) :: placedEntries es

def placedElements : List (Span × List (Key × Node)) → List (Span × Value)
  | [] => []
  | (span, es) :: elements => (span, .table (placedEntries es)) :: placedElements elements

end

end AccountCensus.Toml
