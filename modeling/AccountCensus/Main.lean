import AccountCensus.Journal.Filter
import AccountCensus.Program.Run

/-!
# The command line

Looks at the files that a run asks for, has the program started, and shows its journal and its
failure. The account store lives in memory, so a database file with contents is refused, and no
port is opened. The run is interrupted when the standard input ends.
-/

namespace AccountCensus.CommandLine

/-- What stands under names from the root on, if it can be seen. -/
def nodeAt (names : List String) : IO (Option Files.Node) := do
  let path := (← IO.currentDir) / ("/" ++ String.intercalate "/" names)
  if ← path.isDir then return some (.directory true)
  else if ← path.pathExists then return some (.file (.bytes (← IO.FS.readBinFile path)))
  else return none

/-- Looks at all the places that a path leads through. -/
def look (fs : Files) (path : String) : IO Files := do
  let mut here := fs.origin path
  let mut nodes := fs.nodes
  for piece in "." :: path.splitOn "/" do
    here := Files.step here piece
    if let some node ← nodeAt here then nodes := (here, node) :: nodes
  return { fs with nodes }

/-- Looks at the file with the settings, and at the path of the database that it names. -/
def lookAround (arguments : List String) : IO Files := do
  let directory := (← IO.currentDir).toString
  let working := (directory.splitOn "/").filter (· != "")
  let fs ← look { nodes := [], working } (Program.settingsPath arguments)
  match (fs.read (Program.settingsPath arguments)).map (Settings.load fun _ => true) with
  | .ok (.ok settings) => look fs settings.database.path
  | _ => return fs

/-- Prints what the journal shows of events. -/
def printLines (filter : Filter) (events : List Event) : IO Unit := do
  for line in filter.lines events do IO.println line

end AccountCensus.CommandLine

open AccountCensus CommandLine

def main (arguments : List String) : IO UInt32 := do
  let filter := Filter.ofText (← IO.getEnv "RUST_LOG")
  let fs ← lookAround arguments
  let noNetwork := "Function not implemented (os error 38)"
  let (events, outcome) := Program.start fs (some noNetwork) arguments
  printLines filter events
  match outcome with
  | .error failure =>
    (← IO.getStderr).putStr failure.complaint
    return 1
  | .ok running =>
    printLines filter running.collect
    let _ ← (← IO.getStdin).readToEnd
    printLines filter Program.Running.interrupt
    return 0
