import Std.Data.ExtTreeMap
import FlowNest.BoundaryPort
import FlowNest.Connection
import FlowNest.Control
import FlowNest.Position

/-!
# FlowNest — nodes

A node is a code node, which is run, or a container, which holds a graph of
nodes inside. What both share is the `NodeCore`. Data passes between the inside
of a container and its surroundings at the ports of its `Boundary`: each is
mapped, by name, to a port of a child.

* `Node.induct` — what holds of every code node, and of a container when it
  holds of its children, holds of every node.
-/

namespace FlowNest

/-- A map with texts as keys. Maps are equal when they hold the same. -/
abbrev StringMap (α : Type) := Std.ExtTreeMap String α

instance {α : Type} [BEq α] : BEq (StringMap α) := ⟨fun m n => m.toList == n.toList⟩

/-! ## Code nodes -/

/-- What every node has. `parent` points back to the container around it. -/
structure NodeCore where
  id : String
  name : String
  kind : String
  position : Position
  description : Option String
  configuration : StringMap String
  parent : Option String
  state : ExecutionState
  control : ControlConfig
deriving BEq

/-- An idle node without a parent, under standard control. -/
def NodeCore.of (id name kind : String) (position : Position) : NodeCore where
  id
  name
  kind
  position
  description := none
  configuration := ∅
  parent := none
  state := .idle
  control := .standard

/-- What a code node does with the values at its inputs. Two pieces of logic are
the same when they have the same serial number, whatever they compute. -/
structure Logic where
  serial : Nat
  process : StringMap Json → StringMap Json

instance : BEq Logic := ⟨fun a b => a.serial == b.serial⟩

/-- Logic is shown without what it computes. -/
def Logic.describe : String := "ProcessingLogicRef(..)"

/-- A node that is run, once it has logic; `handle` is a token of its runner. -/
structure CodeNode where
  core : NodeCore
  inputs : List Port
  outputs : List Port
  logic : Option Logic
  handle : Option String
deriving BEq

namespace CodeNode

/-- A code node without ports and logic. -/
def of (id name kind : String) (position : Position) : CodeNode :=
  ⟨.of id name kind position, [], [], none, none⟩

/-- Adds a port that the node owns, behind those of its direction. -/
def addPort (c : CodeNode) (direction : Direction) (name : String) (dataType : DataType) :
    CodeNode :=
  let port := Port.of c.core.id name direction dataType
  match direction with
  | .input => { c with inputs := c.inputs ++ [port] }
  | .output => { c with outputs := c.outputs ++ [port] }

/-- Only a node with logic can be run. -/
def executable (c : CodeNode) : Bool :=
  c.logic.isSome

end CodeNode

/-! ## Containers -/

/-- The child port that a boundary port leads to. -/
structure PortMapping where
  child : String
  portName : String
deriving DecidableEq, Inhabited

/-- The boundary of a container: its ports, and where their names lead. -/
structure Boundary where
  inputs : List BoundaryPort
  outputs : List BoundaryPort
  mappings : StringMap PortMapping
deriving BEq

namespace Boundary

def empty : Boundary := ⟨[], [], ∅⟩

/-- Inputs first. -/
def ports (b : Boundary) : List BoundaryPort :=
  b.inputs ++ b.outputs

/-- The ports of one direction's list. -/
def side (b : Boundary) : Direction → List BoundaryPort
  | .input => b.inputs
  | .output => b.outputs

/-- Adds a port that leads to its inner end's child, at the port of that name. -/
def add (b : Boundary) (p : BoundaryPort) (portName : String) : Boundary :=
  let mappings := b.mappings.insert p.port.name ⟨p.inner.node, portName⟩
  match p.port.direction with
  | .input => { b with inputs := b.inputs ++ [p], mappings }
  | .output => { b with outputs := b.outputs ++ [p], mappings }

end Boundary

/-- What stands at one level of a graph: nodes, and the connections among them. -/
structure Scope (ν : Type) where
  nodes : List ν
  connections : List Connection

/-- A node with a graph of nodes inside. -/
structure Container (ν : Type) where
  core : NodeCore
  boundary : Boundary
  inside : Scope ν

/-- A node of a flow graph. -/
inductive Node where
  | code (c : CodeNode)
  | graph (g : Container Node)

namespace Node

def core : Node → NodeCore
  | .code c => c.core
  | .graph g => g.core

/-- The node with another core. -/
def withCore : Node → NodeCore → Node
  | .code c, core => .code { c with core }
  | .graph g, core => .graph { g with core }

def id (n : Node) : String := n.core.id

def code? : Node → Option CodeNode
  | .code c => some c
  | .graph _ => none

def graph? : Node → Option (Container Node)
  | .code _ => none
  | .graph g => some g

/-- Is the node exempt from what is pushed down to it? -/
def independent (n : Node) : Bool :=
  n.core.control.independentControl

def withParent (n : Node) (parent : Option String) : Node :=
  n.withCore { n.core with parent }

def withPosition (n : Node) (position : Position) : Node :=
  n.withCore { n.core with position }

def inputPorts : Node → List Port
  | .code c => c.inputs
  | .graph g => g.boundary.inputs.map (·.port)

def outputPorts : Node → List Port
  | .code c => c.outputs
  | .graph g => g.boundary.outputs.map (·.port)

/-- Inputs first. -/
def ports (n : Node) : List Port :=
  n.inputPorts ++ n.outputPorts

/-- The first port with the id. -/
def port? (n : Node) (portId : String) : Option Port :=
  n.ports.find? (·.id = portId)

/-- The first port with the name, among the inputs or among the outputs. -/
def portNamed? (n : Node) (name : String) : Direction → Option Port
  | .input => n.inputPorts.find? (·.name = name)
  | .output => n.outputPorts.find? (·.name = name)

@[simp] theorem core_withCore (n : Node) (core : NodeCore) : (n.withCore core).core = core := by
  cases n <;> rfl

@[simp] theorem withCore_withCore (n : Node) (a b : NodeCore) :
    (n.withCore a).withCore b = n.withCore b := by
  cases n <;> rfl

@[simp] theorem withCore_core (n : Node) : n.withCore n.core = n := by
  cases n <;> rfl

@[simp] theorem ports_withCore (n : Node) (core : NodeCore) :
    (n.withCore core).ports = n.ports := by
  cases n <;> rfl

/-- A port that a name leads to is one of the node's. -/
theorem mem_ports_of_portNamed? {n : Node} {name : String} {d : Direction} {p : Port}
    (h : n.portNamed? name d = some p) : p ∈ n.ports := by
  cases d with
  | input => exact List.mem_append_left _ (List.mem_of_find?_eq_some h)
  | output => exact List.mem_append_right _ (List.mem_of_find?_eq_some h)

/-! ## Induction -/

mutual

/-- What holds of code nodes, and of a container when it holds of its children,
holds of every node. -/
theorem induct {P : Node → Prop} (code : ∀ c, P (.code c))
    (graph : ∀ g : Container Node, (∀ n ∈ g.inside.nodes, P n) → P (.graph g)) :
    ∀ n : Node, P n
  | .code c => code c
  | .graph ⟨core, boundary, ⟨nodes, connections⟩⟩ =>
    graph ⟨core, boundary, ⟨nodes, connections⟩⟩ (induct_nodes code graph nodes)

/-- What holds of a tree if it holds of the trees right below it holds of all trees of a list. -/
theorem induct_nodes {P : Node → Prop} (code : ∀ c, P (.code c))
    (graph : ∀ g : Container Node, (∀ n ∈ g.inside.nodes, P n) → P (.graph g)) :
    ∀ nodes : List Node, ∀ n ∈ nodes, P n
  | [], _, h => by cases h
  | m :: rest, n, h =>
    (List.mem_cons.1 h).elim (fun h => h ▸ induct code graph m)
      (induct_nodes code graph rest n)

end

/-! ## Equality -/

mutual

/-- Equality of all that two nodes hold. -/
def beq : Node → Node → Bool
  | .code a, .code b => a == b
  | .graph ⟨core, boundary, ⟨nodes, connections⟩⟩,
    .graph ⟨core', boundary', ⟨nodes', connections'⟩⟩ =>
    core == core' && boundary == boundary' && beqNodes nodes nodes' &&
      connections == connections'
  | _, _ => false

def beqNodes : List Node → List Node → Bool
  | [], [] => true
  | a :: as, b :: bs => beq a b && beqNodes as bs
  | _, _ => false

end

instance : BEq Node := ⟨beq⟩

end Node

namespace Scope

/-- The first node of the scope with the id. -/
def node? (s : Scope Node) (id : String) : Option Node :=
  s.nodes.find? (·.id = id)

/-- The port an endpoint refers to in the scope. -/
def port? (s : Scope Node) (e : Endpoint) : Option Port :=
  (s.node? e.node).bind (·.port? e.port)

end Scope

namespace Container

/-- The kind of every container. -/
def kind : String := "GraphNode"

/-- A container without boundary around a scope, whose nodes it takes as its
children; its kind is fixed. -/
def of (core : NodeCore) (inside : Scope Node) : Container Node where
  core := { core with kind }
  boundary := .empty
  inside := { inside with nodes := inside.nodes.map (·.withParent core.id) }

/-- The first boundary port with the id. -/
def boundaryPort? (g : Container Node) (portId : String) : Option BoundaryPort :=
  g.boundary.ports.find? (·.port.id = portId)

/-- The child port a mapping leads to, in one direction. -/
def target? (g : Container Node) (m : PortMapping) (d : Direction) : Option (Node × Port) := do
  let child ← g.inside.node? m.child
  let port ← child.portNamed? m.portName d
  return (child, port)

/-- The child and its port that the boundary port with the id leads to. -/
def resolve? (g : Container Node) (portId : String) : Option (Node × Port) := do
  let p ← g.boundaryPort? portId
  let m ← g.boundary.mappings[p.port.name]?
  g.target? m p.port.direction

end Container

end FlowNest
