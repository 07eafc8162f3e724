import AccountCensus.Settings.Basic
import AccountCensus.Settings.Mismatch

/-!
# Settings in a document

A section is a table, whose entries set the settings they name, or an array, whose elements are
the settings in their declared order. Settings that are left out keep their defaults; entries with
other names and elements beyond the last setting are ignored. A date or time has no entries. The
first value of the wrong shape in the order of the document refuses it.
-/

namespace AccountCensus.Settings

open Toml (Span Value)

/-- Sets a value, or refuses it. -/
abbrev Setter (σ : Type) := σ → Span → Value → Except Mismatch σ

/-- Names and setters of the settings of a section, in their declared order. -/
abbrev Fields (σ : Type) := List (String × Setter σ)

/-! ## Single values -/

def textOf (span : Span) : Value → Except Mismatch String
  | .string s => .ok s
  | v => .error (.ofValue span v .text)

/-- A natural number up to a bound. -/
def naturalUpTo (bound : Nat) (wanted : Wanted) (span : Span) : Value → Except Mismatch Nat
  | .integer i => if 0 ≤ i && i ≤ bound then .ok i.toNat else .error ⟨span, .outOfRange i, wanted⟩
  | v => .error (.ofValue span v wanted)

def portOf : Span → Value → Except Mismatch Nat := naturalUpTo 65535 .port

def secondsOf : Span → Value → Except Mismatch Nat := naturalUpTo (Nat.pow 2 64 - 1) .seconds

/-! ## Sections -/

/-- Sets the settings that the entries of a table name. -/
def setEntries {σ : Type} (fields : Fields σ) : σ → List (String × Span × Value) → Except Mismatch σ
  | s, [] => .ok s
  | s, (name, span, v) :: rest =>
    match fields.lookup name with
    | none => setEntries fields s rest
    | some set => (set s span v).bind fun s => setEntries fields s rest

/-- Sets the settings by their order. -/
def setElements {σ : Type} : Fields σ → σ → List (Span × Value) → Except Mismatch σ
  | (_, set) :: fields, s, (span, v) :: rest =>
    (set s span v).bind fun s => setElements fields s rest
  | _, s, _ => .ok s

/-- A section with its defaults. -/
def sectionOf {σ : Type} (fields : Fields σ) (wanted : Wanted) (default : σ) (span : Span) :
    Value → Except Mismatch σ
  | .table entries => setEntries fields default entries
  | .array elements => setElements fields default elements
  | .moment => .ok default
  | v => .error (.ofValue span v wanted)

def Server.fields : Fields Server := [
  ("name", fun s span v => (textOf span v).map fun name => { s with name }),
  ("metrics_port", fun s span v => (portOf span v).map fun metricsPort => { s with metricsPort })]

def Database.fields : Fields Database := [
  ("path", fun s span v => (textOf span v).map fun path => { s with path })]

def Stats.fields : Fields Stats := [
  ("collection_interval", fun s span v =>
    (secondsOf span v).map fun collectionInterval => { s with collectionInterval }),
  ("fetch_timeout", fun s span v =>
    (secondsOf span v).map fun fetchTimeout => { s with fetchTimeout })]

def sections : Fields Settings := [
  ("server", fun s span v =>
    (sectionOf Server.fields .server {} span v).map fun server => { s with server }),
  ("database", fun s span v =>
    (sectionOf Database.fields .database {} span v).map fun database => { s with database }),
  ("stats", fun s span v =>
    (sectionOf Stats.fields .stats {} span v).map fun stats => { s with stats })]

/-- The settings that the entries of a document's root table give. -/
def ofEntries (entries : List (String × Span × Value)) : Except Mismatch Settings :=
  setEntries sections {} entries

end AccountCensus.Settings
