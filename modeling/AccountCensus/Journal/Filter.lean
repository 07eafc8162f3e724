import AccountCensus.Journal

/-!
# What the journal shows

A filter is a list of directives that are written with commas between them. A directive is a
level, the beginning of the names of parts, or both as `name=level`; a name alone stands for all
levels, and `off` for none. Of the directives that fit a part the one with the longest name
decides, and of two with one name the later. Without a directive only errors are shown.
-/

namespace AccountCensus

structure Directive where
  /-- The beginning of the names of the parts meant; empty for all. -/
  name : String
  /-- The least urgent level shown, or none. -/
  level? : Option Level
deriving DecidableEq, Repr

namespace Directive

/-- The words for levels, in lower case. -/
def levels : List (String × Option Level) := [
  ("off", none), ("error", some .error), ("warn", some .warning), ("info", some .info),
  ("debug", some .debug), ("trace", some .trace),
  ("0", none), ("1", some .error), ("2", some .warning), ("3", some .info),
  ("4", some .debug), ("5", some .trace)]

def levelNamed? (word : String) : Option (Option Level) := levels.lookup word.toLower

def isName (s : String) : Bool :=
  s != "" && s.all fun c => c.isAlphanum || c == '_' || c == ':' || c == '-'

def parse? (s : String) : Option Directive :=
  match s.splitOn "=" with
  | [word] =>
    match levelNamed? word with
    | some level => some ⟨"", level⟩
    | none => if isName word then some ⟨word, some .trace⟩ else none
  | [name, word] =>
    if !isName name then none
    else if word = "" then some ⟨name, some .trace⟩
    else (levelNamed? word).map (⟨name, ·⟩)
  | _ => none

def fits (d : Directive) (p : Part) : Bool := p.label.startsWith d.name

end Directive

abbrev Filter := List Directive

namespace Filter

/-- The filter that is in force where none is given, or where the given one is malformed. -/
def standard : Filter := [⟨"", some .info⟩]

def parse? (s : String) : Option Filter :=
  match (s.splitOn ",").filter (· != "") with
  | [] => some [⟨"", some .error⟩]
  | pieces => pieces.mapM Directive.parse?

/-- The filter that a text asks for. -/
def ofText (s? : Option String) : Filter := (s?.bind parse?).getD standard

/-- The directive that decides about a part. -/
def deciding? (f : Filter) (p : Part) : Option Directive :=
  (f.filter (·.fits p)).foldl (fun best d =>
    if best.any (d.name.length < ·.name.length) then best else some d) none

def shows (f : Filter) (e : Event) : Bool :=
  ((f.deciding? e.part).bind Directive.level?).any (e.level.rank ≤ ·.rank)

/-- The lines in which the journal shows events. A message can take several lines. -/
def lines (f : Filter) (events : List Event) : List String :=
  (events.filter f.shows).flatMap fun e => e.fullLine.splitOn "\n"

end Filter

end AccountCensus
