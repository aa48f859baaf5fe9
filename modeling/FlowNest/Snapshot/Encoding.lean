import FlowNest.Graph
import FlowNest.Json
import FlowNest.Segment
import FlowNest.Settings
import FlowNest.Status
import FlowNest.Issue

/-!
# FlowNest — graphs as JSON

The JSON form of every type of a graph. A record is an object with its fields in
a fixed order; what a node has of its own follows after its core. A code node's
logic and handle belong to a run, not to the graph, and are left out.
-/

namespace FlowNest

open Json (str obj arr)

namespace Json

def ofOption {α : Type} (f : α → Json) : Option α → Json
  | none => .null
  | some a => f a

def ofNat (n : Nat) : Json := .int n

def ofMap {α : Type} (f : α → Json) (m : StringMap α) : Json :=
  .obj (m.toList.map fun (k, a) => (k, f a))

end Json

def Position.toJson (p : Position) : Json :=
  obj [("x", .float p.x), ("y", .float p.y)]

def ExecutionState.name : ExecutionState → String
  | .idle => "Idle"
  | .running => "Running"
  | .paused => "Paused"
  | .error => "Error"

def ExecutionState.toJson (s : ExecutionState) : Json := str s.name

def ControlConfig.toJson (c : ControlConfig) : Json :=
  obj [("pause_buffer_size", .ofNat c.pauseBufferSize.toNat),
    ("speed_attenuation_ms", .ofNat c.speedAttenuationMs.toNat),
    ("auto_resume_on_error", .bool c.autoResumeOnError),
    ("independent_control", .bool c.independentControl)]

def Direction.name : Direction → String
  | .input => "Input"
  | .output => "Output"

def Direction.toJson (d : Direction) : Json := str d.name

def DataType.toJson (t : DataType) : Json := str t.tag

def Port.toJson (p : Port) : Json :=
  obj [("id", str p.id), ("name", str p.name), ("direction", p.direction.toJson),
    ("data_type", p.dataType.toJson), ("required", .bool p.required),
    ("default_value", .ofOption Constant.json p.defaultValue),
    ("owning_node_id", str p.owner)]

def BoundaryPort.toJson (p : BoundaryPort) : Json :=
  obj [("port", p.port.toJson), ("upstream_node_id", str p.source.node),
    ("upstream_port_id", str p.source.port), ("downstream_node_id", str p.target.node),
    ("downstream_port_id", str p.target.port)]

def PortMapping.toJson (m : PortMapping) : Json :=
  obj [("child_node_id", str m.child), ("child_port_name", str m.portName)]

def Connection.toJson (c : Connection) : Json :=
  obj [("id", str c.id), ("source_node_id", str c.source.node),
    ("source_port_id", str c.source.port), ("target_node_id", str c.target.node),
    ("target_port_id", str c.target.port), ("channel_capacity", .ofNat c.capacity.toNat),
    ("parent_scope_id", .ofOption str c.scope), ("ip_type_id", .ofOption str c.packetType)]

def Segment.toJson (s : Segment) : Json :=
  obj [("id", str s.id), ("source_node_id", str s.source.node),
    ("source_port_id", str s.source.port), ("target_node_id", str s.target.node),
    ("target_port_id", str s.target.port), ("scope_node_id", .ofOption str s.scope),
    ("parent_connection_id", str s.connection)]

def Settings.toJson (s : Settings) : Json :=
  obj [("default_control", s.control.toJson), ("group_margin", .float s.margin)]

def Status.toJson (s : Status) : Json :=
  obj [("total_nodes", .ofNat s.total), ("idle_count", .ofNat s.idle),
    ("running_count", .ofNat s.running), ("paused_count", .ofNat s.paused),
    ("error_count", .ofNat s.error), ("independent_control_count", .ofNat s.independent),
    ("overall_state", s.overall.toJson)]

def Report.toJson (r : Report) : Json :=
  obj [("success", .bool r.success), ("errors", arr (r.issues.map (str ·.message)))]

/-- The entries of the core, which stand among those of the node itself. -/
def NodeCore.entries (c : NodeCore) : List (String × Json) :=
  [("id", str c.id), ("name", str c.name), ("node_type", str c.kind),
    ("position", c.position.toJson), ("description", .ofOption str c.description),
    ("configuration", .ofMap str c.configuration), ("parent_node_id", .ofOption str c.parent),
    ("execution_state", c.state.toJson), ("control_config", c.control.toJson)]

def CodeNode.toJson (c : CodeNode) : Json :=
  obj (c.core.entries ++
    [("input_ports", arr (c.inputs.map Port.toJson)),
      ("output_ports", arr (c.outputs.map Port.toJson))])

/-- A container whose children are in JSON already. -/
def Container.toJson (g : Container Json) : Json :=
  obj (g.core.entries ++
    [("input_ports", arr (g.boundary.inputs.map BoundaryPort.toJson)),
      ("output_ports", arr (g.boundary.outputs.map BoundaryPort.toJson)),
      ("child_nodes", arr g.inside.nodes),
      ("internal_connections", arr (g.inside.connections.map Connection.toJson)),
      ("port_mappings", .ofMap PortMapping.toJson g.boundary.mappings)])

mutual

def Node.toJson : Node → Json
  | .code c => obj [("Code", c.toJson)]
  | .graph ⟨core, boundary, ⟨nodes, connections⟩⟩ =>
    obj [("Graph", Container.toJson ⟨core, boundary, ⟨Forest.toJson nodes, connections⟩⟩)]

def Forest.toJson : List Node → List Json
  | [] => []
  | n :: rest => n.toJson :: Forest.toJson rest

end

def FlowGraph.toJson (g : FlowGraph) : Json :=
  obj [("id", str g.id), ("name", str g.name), ("version", str g.version),
    ("root_nodes", arr (Forest.toJson g.root.nodes)),
    ("connections", arr (g.root.connections.map Connection.toJson)),
    ("metadata", .ofMap str g.metadata),
    ("target_platforms", arr (g.platforms.map str))]

end FlowNest
