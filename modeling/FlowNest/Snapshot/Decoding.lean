import FlowNest.Snapshot.Encoding
import FlowNest.Snapshot.Record

/-!
# FlowNest — graphs from JSON

Readers for every type of a graph, each for the form that `toJson` gives it.
Values that are checked when they are built are checked here as well, as soon as
their record has been read. A node's own fields are read before those of its
core, which are among the entries the node itself has no use for.
-/

namespace FlowNest

open Json (Draft)
open Snapshot

namespace Snapshot

/-- Builds a checked value from what has been read. -/
def checked {α : Type} (built : Except ConstructionError α) : Except ReadError α :=
  built.mapError .refused

/-- A map; the last of equal keys wins. -/
def readMap {α : Type} (read : Reader α) : Reader (StringMap α)
  | .obj entries =>
    entries.foldlM (fun m (key, d) =>
      match key with
      | some k => (read d).map (m.insert k ·)
      | none => .error .malformed) ∅
  | _ => .error .malformed

/-- A constant; null is none. -/
def readConstant : Reader Constant := fun d =>
  match d.json? with
  | some j => .ok (.ofJson j)
  | none => .error .malformed

/-- One of some names: as text, or as the only key of an object, over null. -/
def readName {α : Type} (names : List (String × α)) : Reader α := fun d =>
  let named (name : String) : Except ReadError α :=
    match names.lookup name with
    | some a => .ok a
    | none => .error .malformed
  match d with
  | .str name => named name
  | .obj [(some name, .null)] => named name
  | _ => .error .malformed

def stateNames : List (String × ExecutionState) :=
  [ExecutionState.idle, .running, .paused, .error].map fun s => (s.name, s)

def readState : Reader ExecutionState := readName stateNames

/-- A state among the entries of a core, where an empty object does for null. -/
def readCoreState : Reader ExecutionState
  | .obj [(name, .obj [])] => readState (.obj [(name, .null)])
  | d => readState d

def readDirection : Reader Direction :=
  readName ([Direction.input, .output].map fun d => (d.name, d))

def readPosition : Reader Position := fun d => do
  let (x, y) ← readRecord ["x", "y"] (fun r =>
    Prod.mk <$> r.field "x" readFloat <*> r.field "y" readFloat) d
  checked (Position.of x y)

def readControl : Reader ControlConfig := fun d => do
  let build ← readRecord ["pause_buffer_size", "speed_attenuation_ms", "auto_resume_on_error",
    "independent_control"] (fun r =>
    (fun size ms auto independent =>
      ControlConfig.of size.toUInt32 ms.toUInt64 auto independent) <$>
      r.field "pause_buffer_size" (readNat UInt32.size) <*>
      r.field "speed_attenuation_ms" (readNat UInt64.size) <*>
      r.field "auto_resume_on_error" readBool <*>
      r.field "independent_control" readBool) d
  checked build

def readDataType : Reader DataType := fun d => (readString d).map .mk

def readPort : Reader Port :=
  readRecord ["id", "name", "direction", "data_type", "required", "default_value",
    "owning_node_id"] fun r =>
    Port.mk <$> r.field "id" readString <*> r.field "name" readString <*>
      r.field "direction" readDirection <*> r.field "data_type" readDataType <*>
      r.field "required" readBool <*> r.optional "default_value" readConstant <*>
      r.field "owning_node_id" readString

/-- An endpoint in two fields of a record. -/
def readEndpoint (r : Record) (node port : String) : Part Endpoint :=
  Endpoint.mk <$> r.field node readString <*> r.field port readString

def readBoundaryPort : Reader BoundaryPort :=
  readRecord ["port", "upstream_node_id", "upstream_port_id", "downstream_node_id",
    "downstream_port_id"] fun r =>
    BoundaryPort.mk <$> r.field "port" readPort <*>
      readEndpoint r "upstream_node_id" "upstream_port_id" <*>
      readEndpoint r "downstream_node_id" "downstream_port_id"

def readMapping : Reader PortMapping :=
  readRecord ["child_node_id", "child_port_name"] fun r =>
    PortMapping.mk <$> r.field "child_node_id" readString <*>
      r.field "child_port_name" readString

def readConnection : Reader Connection :=
  readRecord ["id", "source_node_id", "source_port_id", "target_node_id", "target_port_id",
    "channel_capacity", "parent_scope_id", "ip_type_id"] fun r =>
    Connection.mk <$> r.field "id" readString <*>
      readEndpoint r "source_node_id" "source_port_id" <*>
      readEndpoint r "target_node_id" "target_port_id" <*>
      (Nat.toUInt64 <$> r.field "channel_capacity" (readNat UInt64.size)) <*>
      r.optional "parent_scope_id" readString <*> r.optional "ip_type_id" readString

def readSegment : Reader Segment :=
  readRecord ["id", "source_node_id", "source_port_id", "target_node_id", "target_port_id",
    "scope_node_id", "parent_connection_id"] fun r =>
    Segment.mk <$> r.field "id" readString <*>
      readEndpoint r "source_node_id" "source_port_id" <*>
      readEndpoint r "target_node_id" "target_port_id" <*>
      r.optional "scope_node_id" readString <*> r.field "parent_connection_id" readString

def readSettings : Reader Settings :=
  readRecord ["default_control", "group_margin"] fun r =>
    Settings.mk <$> r.field "default_control" readControl <*>
      r.field "group_margin" readFloat

/-! ## Nodes -/

def coreNames : List String :=
  ["id", "name", "node_type", "position", "description", "configuration", "parent_node_id",
    "execution_state", "control_config"]

/-- The fields of a core. -/
def coreParts (readState : Reader ExecutionState) (r : Record) : Part NodeCore :=
  NodeCore.mk <$> r.field "id" readString <*> r.field "name" readString <*>
    r.field "node_type" readString <*> r.field "position" readPosition <*>
    r.optional "description" readString <*>
    r.field "configuration" (readMap readString) <*>
    r.optional "parent_node_id" readString <*>
    r.field "execution_state" readState <*> r.field "control_config" readControl

/-- Reads a core on its own. -/
def readNodeCore : Reader NodeCore :=
  readRecord coreNames fun r => coreParts readState r

/-- Reads a node's own fields, then its core. A node is never an array. -/
def readWithCore {α β : Type} (names : List String) (own : Record → Part α)
    (build : NodeCore → α → β) : Reader β
  | .obj entries => do
    let r : Record := ⟨entries, false⟩
    -- the core is read only once the whole object has been gone through
    let a ← (r.strict names *> own r).result
    let core ← (coreParts readCoreState (r.others names)).result
    return build core a
  | _ => .error .malformed

def readCodeNode : Reader CodeNode :=
  readWithCore ["input_ports", "output_ports"]
    (fun r => Prod.mk <$> r.field "input_ports" (readList readPort) <*>
      r.field "output_ports" (readList readPort))
    fun core (inputs, outputs) => ⟨core, inputs, outputs, none, none⟩

def readContainer (readNode : Reader Node) : Reader (Container Node) :=
  readWithCore ["input_ports", "output_ports", "child_nodes", "internal_connections",
      "port_mappings"]
    (fun r =>
      (fun inputs outputs nodes connections mappings =>
        (Boundary.mk inputs outputs mappings, Scope.mk nodes connections)) <$>
        r.field "input_ports" (readList readBoundaryPort) <*>
        r.field "output_ports" (readList readBoundaryPort) <*>
        r.field "child_nodes" (readList readNode) <*>
        r.field "internal_connections" (readList readConnection) <*>
        r.field "port_mappings" (readMap readMapping))
    fun core (boundary, inside) => ⟨core, boundary, inside⟩

/-- Reads a node with at most so many containers around each other. It is an
object with one entry, whose key says what kind of node it is. -/
def readNodeWithin : Nat → Reader Node
  | 0, _ => .error .malformed
  | fuel + 1, .obj ((some kind, d) :: rest) => do
    let n ←
      if kind = "Code" then (readCodeNode d).map Node.code
      else if kind = "Graph" then (readContainer (readNodeWithin fuel) d).map Node.graph
      else .error .malformed
    -- a second entry stands behind the node, so faults of the node come first
    if rest.isEmpty then return n else .error .malformed
  | _, _ => .error .malformed

/-- Reads a node; its nesting is bounded by that of the draft. -/
def readNode : Reader Node := fun d => readNodeWithin (d.depth + 1) d

/-- Reads a whole graph. -/
def readGraph : Reader FlowGraph :=
  readRecord ["id", "name", "version", "root_nodes", "connections", "metadata",
    "target_platforms"] fun r =>
    (fun id name version nodes connections metadata platforms =>
      FlowGraph.mk id name version ⟨nodes, connections⟩ metadata platforms) <$>
      r.field "id" readString <*> r.field "name" readString <*>
      r.field "version" readString <*> r.field "root_nodes" (readList readNode) <*>
      r.field "connections" (readList readConnection) <*>
      r.field "metadata" (readMap readString) <*>
      r.field "target_platforms" (readList readString)

end Snapshot

end FlowNest
