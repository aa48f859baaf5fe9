import FlowNest.Graph

/-!
# FlowNest — what a snapshot keeps

What belongs to a run is not written: the logic and the handle of a code node. And a port
whose default is null cannot be told from one without a default. All else is kept.

* `FlowGraph.kept` — a graph as far as a snapshot of it goes.
-/

namespace FlowNest

/-- Is this the constant null? -/
def Constant.isNull (c : Constant) : Bool :=
  match c.json with
  | .null => true
  | _ => false

/-- The port without a default that is null. -/
def Port.kept (p : Port) : Port :=
  { p with defaultValue := p.defaultValue.filter (!·.isNull) }

def BoundaryPort.kept (p : BoundaryPort) : BoundaryPort :=
  { p with port := p.port.kept }

def Boundary.kept (b : Boundary) : Boundary :=
  { b with inputs := b.inputs.map BoundaryPort.kept, outputs := b.outputs.map BoundaryPort.kept }

/-- The node without what it has during a run. -/
def CodeNode.kept (c : CodeNode) : CodeNode :=
  { c with
    inputs := c.inputs.map Port.kept
    outputs := c.outputs.map Port.kept
    logic := none
    handle := none }

mutual

/-- The node, and all below it, as far as a snapshot goes. -/
def Node.kept : Node → Node
  | .code c => .code c.kept
  | .graph ⟨core, boundary, ⟨nodes, connections⟩⟩ =>
    .graph ⟨core, boundary.kept, ⟨Forest.kept nodes, connections⟩⟩

def Forest.kept : List Node → List Node
  | [] => []
  | n :: rest => n.kept :: Forest.kept rest

end

/-- The graph as far as a snapshot goes. -/
def FlowGraph.kept (g : FlowGraph) : FlowGraph :=
  g.withNodes (Forest.kept g.root.nodes)

/-- Of a list of nodes, each is kept on its own. -/
theorem Forest.kept_eq_map (nodes : List Node) : Forest.kept nodes = nodes.map Node.kept := by
  induction nodes with
  | nil => rfl
  | cons n nodes ih => rw [Forest.kept, ih, List.map_cons]

/-- The container as far as a snapshot goes. -/
def Container.kept (g : Container Node) : Container Node :=
  ⟨g.core, g.boundary.kept, ⟨g.inside.nodes.map Node.kept, g.inside.connections⟩⟩

/-- A container is kept with its boundary, its connections and what is kept of its children. -/
theorem Node.kept_graph (g : Container Node) : (Node.graph g).kept = .graph g.kept := by
  obtain ⟨core, boundary, nodes, connections⟩ := g
  rw [Node.kept, Forest.kept_eq_map]
  rfl

end FlowNest
