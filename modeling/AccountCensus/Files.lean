import AccountCensus.Settings.Load
import AccountCensus.Store.Database

/-!
# Files

What the program can see of a file system: directories and files, each under its names from the
root on, and the directory that the program works in. A path to be read is followed piece by
piece, so every piece but the last has to be a directory. The path of a database is first brought
into its shortest form.
-/

namespace AccountCensus

/-- What a file holds. -/
inductive Files.Content where
  | bytes (bytes : ByteArray)
  | database (database : Store.Database)

inductive Files.Node where
  /-- New files can be made in a directory that is writable. -/
  | directory (writable : Bool)
  | file (content : Files.Content)

structure Files where
  nodes : List (List String × Files.Node)
  working : List String

namespace Files

def node? (fs : Files) (names : List String) : Option Node := fs.nodes.lookup names

/-- Where a path begins. -/
def origin (fs : Files) (path : String) : List String :=
  if path.startsWith "/" then [] else fs.working

/-- Where a piece of a path leads from a place. -/
def step (here : List String) (piece : String) : List String :=
  if piece = "" || piece = "." then here
  else if piece = ".." then here.dropLast
  else here ++ [piece]

/-- Follows the pieces of a path. -/
def walk (fs : Files) (here : List String) : List String → Except Settings.FileError Node
  | [] => (fs.node? here).elim (.error .notFound) .ok
  | piece :: pieces =>
    match fs.node? here with
    | none => .error .notFound
    | some (.file _) => .error .notDirectory
    | some (.directory _) => fs.walk (step here piece) pieces

/-- What a path leads to. -/
def find (fs : Files) (path : String) : Except Settings.FileError Node :=
  if path = "" then .error .notFound else fs.walk (fs.origin path) (path.splitOn "/")

/-- A path exists if it leads anywhere; one with a NUL never does. -/
def hasPath (fs : Files) (path : String) : Bool :=
  !path.contains '\x00' && fs.find path matches .ok _

/-! ## Settings -/

/-- The bytes of a file. A database holds no text. -/
def read (fs : Files) (path : String) : Except Settings.FileError ByteArray :=
  match fs.find path with
  | .error e => .error e
  | .ok (.directory _) => .error .isDirectory
  | .ok (.file (.bytes bytes)) => .ok bytes
  | .ok (.file (.database _)) => .error .notText

/-- The settings in the file at a path. -/
def settings (fs : Files) (path : String) : Except Settings.LoadError Settings :=
  match fs.read path with
  | .error e => .error (.file e)
  | .ok bytes => Settings.load fs.hasPath bytes

/-! ## Databases -/

/-- What opening a database at a path leads to. An empty file is an empty database, and a file
that does not exist is made. -/
def place (fs : Files) (path : String) : Store.Place :=
  let names := (path.splitOn "/").foldl step (fs.origin path)
  match fs.node? names with
  | some (.directory _) => .unreachable
  | some (.file (.database d)) => .database d
  | some (.file (.bytes bytes)) => if bytes.isEmpty then .database {} else .otherFile
  | none =>
    match fs.node? names.dropLast with
    | some (.directory true) => .database {}
    | _ => .unreachable

end Files

end AccountCensus
