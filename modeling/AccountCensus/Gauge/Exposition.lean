import AccountCensus.Gauge.Registry
import AccountCensus.Number.Binary64

/-!
# The exposition text

Scrapers read a registry as text: for each metric a help line, a type line and a sample line, the
metrics in ascending order of their names. A registry with a broken collector is never shown in
part: its text is empty.

A value is shown as the nearest 64-bit float, in the shortest digits that read back, filled up
with zeros.
-/

namespace AccountCensus.Gauge

/-- Help stays on its line: a backslash is doubled, a line feed becomes a backslash and an n. -/
def escapeHelp (help : List Char) : List Char :=
  help.flatMap fun c => if c = '\\' then ['\\', '\\'] else if c = '\n' then ['\\', 'n'] else [c]

def Kind.label : Kind → String
  | .gauge => "gauge"
  | .counter => "counter"

/-- A count as scrapers see it. -/
def magnitudeText (n : Nat) : String :=
  String.ofList (Number.Binary64.ofNat n).shortest.positional

def valueText (value : Int) : String :=
  if value < 0 then "-" ++ magnitudeText value.natAbs else magnitudeText value.natAbs

namespace Metric

def helpLine (m : Metric) : String :=
  "# HELP " ++ m.name ++ " " ++ String.ofList (escapeHelp m.help.toList)

def typeLine (m : Metric) : String := "# TYPE " ++ m.name ++ " " ++ m.kind.label

def sampleLine (m : Metric) : String := m.name ++ " " ++ valueText m.value

def lines (m : Metric) : List String := [m.helpLine, m.typeLine, m.sampleLine]

end Metric

namespace Registry

/-- The metrics in ascending order of their names. -/
def sorted (r : Registry) : List Metric := r.metrics.mergeSort fun a b => decide (a.name ≤ b.name)

def lines (r : Registry) : List String := if r.broken then [] else r.sorted.flatMap Metric.lines

def exposition (r : Registry) : String := String.join (r.lines.map (· ++ "\n"))

/-- The lines that are no comments. -/
def samples (r : Registry) : List String := r.lines.filter fun line => !line.startsWith "#"

end Registry

end AccountCensus.Gauge
