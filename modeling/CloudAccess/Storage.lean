import CloudAccess.Graph.Snapshot
import CloudAccess.Json.Writer
import CloudAccess.Reach.Paths
import CloudAccess.Storage.Directory
import CloudAccess.Text.Utf8

/-!
# Snapshot and policy files

Files are JSON in UTF-8, lines ended in any of the usual ways.

* `Files.loadSnapshot` and `Files.saveSnapshot` read and write snapshots; what was saved is what
  is loaded.
* `Files.loadPolicy` reads one policy document.

`AccessError` gathers all that can go wrong between a file and an answer.
-/

namespace CloudAccess

/-! ## Errors -/

/-- Why bytes are not JSON text. -/
inductive TextError where
  | bytes (flaw : Text.Utf8.Flaw)
  | json (flaw : Json.Flaw) (position : Json.Position)
  | oversized (digits : Nat)
deriving DecidableEq

def TextError.message : TextError → String
  | bytes flaw => flaw.message
  | json flaw position => (Json.ReadError.malformed flaw position).message
  | oversized digits => Json.oversizedMessage digits

inductive FileError where
  | snapshotUnread (path : String) (obstacle : Obstacle)
  | snapshotText (path : String) (error : TextError)
  | snapshotShape (path : String)
  | snapshotUnwritten (path : String) (obstacle : Obstacle)
  | policyUnread (path : String) (obstacle : Obstacle)
  | policyText (path : String) (error : TextError)
  | policyShape (path : String) (fault : Fault)
deriving DecidableEq

def FileError.message : FileError → String
  | snapshotUnread path o => s!"failed to read snapshot {path}: {o.message path}"
  | snapshotText path e => s!"failed to parse JSON from {path}: {e.message}"
  | snapshotShape path => s!"snapshot {path} must contain a JSON object"
  | snapshotUnwritten path o => s!"failed to write snapshot {path}: {o.message path}"
  | policyUnread path o => s!"failed to read policy file {path}: {o.message path}"
  | policyText path e => s!"failed to parse policy JSON from {path}: {e.message}"
  | policyShape path f => s!"failed to parse policy JSON from {path}: {f.message}"

/-- Why there is no answer. -/
inductive AccessError where
  | fault (fault : Fault)
  /-- No graph can be made of a snapshot. -/
  | malformed (cause : Malformation)
  | unknownPrincipal (id : Identifier)
  | unknownResource (id : Identifier)
  | file (error : FileError)
  /-- A value that is not a text was to be shown in a table. -/
  | unshowable (kind : Json.Kind)

namespace AccessError

def ofSnapshotError : SnapshotError → AccessError
  | .fault f => fault f
  | .malformed m => malformed m

def ofQueryError : QueryError → AccessError
  | .unknownPrincipal id => unknownPrincipal id
  | .unknownResource id => unknownResource id
  | .fault f => fault f

/-- The error of a file that cannot be opened; a path with a NUL in it is a fault of its own. -/
def ofObstacle (error : Obstacle → FileError) : Obstacle → AccessError
  | .nul => fault .nulInPath
  | o => file (error o)

/-- The error of a policy file that cannot be opened. -/
def ofPolicyObstacle (path : String) : Obstacle → AccessError
  | .nul => file (.policyShape path .nulInPath)
  | o => file (.policyUnread path o)

def message : AccessError → String
  | fault f => f.message
  | malformed m => m.message
  | unknownPrincipal id => (QueryError.unknownPrincipal id).message
  | unknownResource id => (QueryError.unknownResource id).message
  | file e => e.message
  | unshowable kind =>
    s!"unable to render {kind.name}; a string or other renderable object is required"

end AccessError

/-! ## Reading and writing -/

/-- The value that bytes hold as JSON text. -/
def jsonOfBytes (bytes : List UInt8) : Except TextError Json := do
  let cs ← (Text.Utf8.decode bytes).mapError .bytes
  match Json.read (String.ofList (Text.Utf8.unifyNewlines cs)) with
  | .ok v => .ok v
  | .error (.malformed flaw position) => .error (.json flaw position)
  | .error (.oversized digits) => .error (.oversized digits)

namespace Files

/-- The snapshot record in a file. -/
def snapshotRecord (fs : Files) (path : String) : Except AccessError Json := do
  let bytes ← (fs.read path).mapError (.ofObstacle (.snapshotUnread path))
  match jsonOfBytes bytes with
  | .ok (.obj ms) => .ok (.obj ms)
  | .ok _ => .error (.file (.snapshotShape path))
  | .error (.oversized digits) => .error (.fault (.oversizedInteger digits))
  | .error e => .error (.file (.snapshotText path e))

/-- Loads a snapshot. -/
def loadSnapshot (fs : Files) (path : String) : Run AccessError Snapshot := do
  let record ← Traced.ofExcept (fs.snapshotRecord path)
  let s ← Traced.ofExcept ((Snapshot.decode record).mapError .ofSnapshotError)
  Traced.note (.snapshotLoaded s.principals.length s.resources.length path)
  return s

/-- Loads a policy document. -/
def loadPolicy (fs : Files) (path : String) : Except AccessError Document := do
  let bytes ← (fs.read path).mapError (.ofPolicyObstacle path)
  let record ← (jsonOfBytes bytes).mapError fun e => .file (.policyText path e)
  (Document.ofJson record).mapError fun f => .file (.policyShape path f)

/-- A file opened for writing a snapshot is empty until that is written. -/
def openForSnapshot (fs : Files) (path : String) : Except AccessError Files :=
  (fs.write path []).mapError (.ofObstacle (.snapshotUnwritten path))

/-- Saves a snapshot. -/
def saveSnapshot (fs : Files) (path : String) (s : Snapshot) : Except AccessError Files :=
  (fs.write path (Text.Utf8.encode (Json.writeIndented s.toJson))).mapError
    (.ofObstacle (.snapshotUnwritten path))

end Files

/-- The graph of a snapshot. -/
def Snapshot.graph (s : Snapshot) : Run AccessError Graph :=
  (Graph.ofSnapshot s).mapError .ofSnapshotError

end CloudAccess
