import AccountCensus.Toml.Statement

/-!
# TOML documents

A document's statements are grouped into the assignments before the first header and sections,
one per header, and the sections are then added to the root table one after the other. A section
for a table that so far was only part of the path of other headers takes its place at the end.
`parse` gives the entries of the root table, or nothing if the text is no document.
-/

namespace AccountCensus.Toml

open Reader (Header Statement)

/-- A header and the assignments behind it. -/
structure Section where
  kind : Header
  /-- From the header to the last value. -/
  span : Span
  path : List Key
  key : Key
  assignments : List Assignment

/-- The assignments before the first header, and the sections. -/
def group : List Statement → List Assignment × List Section
  | [] => ([], [])
  | .blank :: rest => group rest
  | .assignment a :: rest =>
    let (as, sections) := group rest
    (a :: as, sections)
  | .header kind span path key :: rest =>
    let (as, sections) := group rest
    let span : Span := ⟨span.left, (as.getLast?.map (·.span.rest)).getD span.rest⟩
    ([], { kind, span, path, key, assignments := as } :: sections)

namespace Section

/-- Adds the section's table to the table that it belongs to. -/
def addTable (s : Section) (parent : Entries) : Option Entries :=
  match parent.node? s.key.name with
  | none => do
    let inner ← assignAll [] s.assignments
    some (parent ++ [(s.key, .table (.header s.span) inner)])
  | some (.table .path inner) => do
    let inner ← assignAll inner s.assignments
    some (parent.remove s.key.name ++ [(s.key, .table (.header s.span) inner)])
  | some _ => none

/-- Adds the section as the next element of its array of tables. -/
def addElement (s : Section) (parent : Entries) : Option Entries := do
  let inner ← assignAll [] s.assignments
  match parent.node? s.key.name with
  | none => some (parent ++ [(s.key, .tables [(s.span, inner)])])
  | some (.tables elements) =>
    some (parent.replace s.key.name (.tables (elements ++ [(s.span, inner)])))
  | some _ => none

def addTo (root : Entries) (s : Section) : Option Entries :=
  within false
    (fun _ parent =>
      match s.kind with
      | .table => s.addTable parent
      | .element => s.addElement parent)
    .path s.path root

end Section

/-- The root table of a document. -/
def root (statements : List Statement) : Option Entries := do
  let (as, sections) := group statements
  sections.foldlM Section.addTo (← assignAll [] as)

/-- The entries of a document's root table. -/
def parse (text : String) : Option (List (String × Span × Value)) := do
  let (statements, _) ← Reader.statements text.toList
  let es ← root statements
  some (placedEntries es)

end AccountCensus.Toml
