import FlowNest.Json.Text
import FlowNest.Json.Written
import FlowNest.Snapshot.Decoding
import FlowNest.Validation

/-!
# FlowNest — snapshots

A graph is kept as JSON text in a file. What belongs to a run is not kept, so a
loaded graph has no node that can be run until logic is attached again. A
snapshot that can be read may still break the structural rules; whoever wants a
valid graph asks for one.

Text is seen through a `TextLayer`, which writes values and reads texts, and files
through a `Storage`, so that the same functions work on a disk and on a folder in
memory.
-/

namespace FlowNest

/-- Writes the text of a value, and says what the bytes of a text hold. -/
class TextLayer where
  write : Json → String
  read : List UInt8 → Json.Reading

/-- The text in lines, and a reading that rounds numbers to the nearest double. -/
instance TextLayer.inLines : TextLayer :=
  ⟨Json.pretty, Json.Reading.ofBytes⟩

/-- Why a snapshot cannot be saved or loaded. -/
inductive SnapshotError where
  | io (path : String)
  | malformed (path : String) (cause : Snapshot.ReadError)
  | invalid (path : String) (issues : List Issue)

def SnapshotError.message : SnapshotError → String
  | .io path => "I/O error on " ++ path
  | .malformed path cause =>
    "Flow graph snapshot " ++ path ++ " is malformed: " ++ cause.message
  | .invalid path issues =>
    "Flow graph snapshot " ++ path ++ " is invalid: " ++
      "; ".intercalate (issues.map Issue.message)

namespace Snapshot

/-- Reads a value from the bytes of a text. Faults of the value come before text
that follows it. -/
def decode [TextLayer] {α : Type} (read : Reader α) (bytes : List UInt8) :
    Except ReadError α := do
  let reading := TextLayer.read bytes
  let a ← read reading.draft
  if reading.ends then return a else .error .malformed

/-- The text of a graph. -/
def encode [TextLayer] (g : FlowGraph) : String :=
  TextLayer.write g.toJson

end Snapshot

/-- A place for files. Reading gives `none`, and writing `false`, where the
storage fails; writing creates the folders on the way. -/
class Storage (m : Type → Type) where
  read : String → m (Option (List UInt8))
  write : String → List UInt8 → m Bool

namespace Snapshot

variable {m : Type → Type} [Monad m] [Storage m]

/-- Saves a graph. -/
def save [TextLayer] (path : String) (g : FlowGraph) : m (Except SnapshotError Unit) := do
  if ← Storage.write path (encode g).toUTF8.toList then return .ok ()
  else return .error (.io path)

/-- Loads a graph, valid or not. -/
def load [TextLayer] (path : String) : m (Except SnapshotError FlowGraph) := do
  match ← Storage.read path with
  | none => return .error (.io path)
  | some bytes => return (decode readGraph bytes).mapError (.malformed path)

/-- The graph, unless it breaks a rule. -/
def requireValid (path : String) (g : FlowGraph) : Except SnapshotError FlowGraph :=
  if g.validate.success then .ok g else .error (.invalid path g.issues)

/-- Loads a graph that breaks no rule. -/
def loadValid [TextLayer] (path : String) : m (Except SnapshotError FlowGraph) := do
  return (← load path).bind (requireValid path)

end Snapshot

end FlowNest
