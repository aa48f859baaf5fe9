import FlowNest.Graph
import FlowNest.Issue

/-!
# FlowNest — validation

The structural rules for connections, nodes, containers and whole graphs, as the
list of issues that break them. The list is in the order of the rules; a
container's own issues stand before those of its children.

* `Connection.issues`, `Connection.issuesBetween` — a connection alone, and with
  the ports at its ends;
* `Node.issues`      — a node and all below it;
* `FlowGraph.issues` — a whole graph.
-/

namespace FlowNest

/-- The issue, where the rule is broken. -/
def flag (broken : Prop) [Decidable broken] (issue : Issue) : List Issue :=
  if broken then [issue] else []

/-- A rule raises no issue exactly when it is kept. -/
@[simp] theorem flag_eq_nil {broken : Prop} [Decidable broken] {issue : Issue} :
    flag broken issue = [] ↔ ¬broken := by
  unfold flag; split <;> simp_all

/-! ## Connections -/

namespace Connection

/-- The parts that must not be blank. -/
def fields (c : Connection) : List (ConnectionField × String) :=
  [(.id, c.id), (.sourceNode, c.source.node), (.sourcePort, c.source.port),
    (.targetNode, c.target.node), (.targetPort, c.target.port)]

/-- The rules that need no port. -/
def issues (c : Connection) : List Issue :=
  c.fields.flatMap (fun f => flag (Text.isBlank f.2) (.blankConnectionField f.1)) ++
    flag (c.source = c.target) (.selfConnection c.id c.source)

/-- All rules, with the ports found at the two ends. -/
def issuesBetween (c : Connection) (source target : Port) : List Issue :=
  c.issues ++
    flag (source.endpoint ≠ c.source) (.sourceMismatch source.id c.source) ++
    flag (target.endpoint ≠ c.target) (.targetMismatch target.id c.target) ++
    flag (source.direction ≠ .output) (.sourceNotOutput source.id) ++
    flag (target.direction ≠ .input) (.targetNotInput target.id) ++
    flag (!source.feeds target)
      (.incompatible source.id source.dataType target.id target.dataType)

end Connection

/-! ## Nodes -/

/-- The ports of a node: owned by it, and of different names. -/
def portIssues (node : String) (seen : List String) : List Port → List Issue
  | [] => []
  | p :: rest =>
    flag (p.owner ≠ node) (.foreignPort p.name node p.owner) ++
      flag (p.name ∈ seen) (.duplicatePortName node p.name) ++
      portIssues node (p.name :: seen) rest

/-- The rules for a node itself. -/
def Node.ownIssues (n : Node) : List Issue :=
  flag (Text.isBlank n.id) .blankNodeId ++
    flag (Text.isBlank n.core.name) (.blankNodeName n.id) ++
    flag (Text.isBlank n.core.kind) (.blankNodeKind n.id) ++
    flag (n.ports.isEmpty) (.noPorts n.id) ++
    portIssues n.id [] n.ports

namespace Container

/-- A child's parent is its container. -/
def parentIssues (g : Container Node) (child : Node) : List Issue :=
  match child.core.parent with
  | none => [.wrongParent child.id g.core.id none]
  | some p =>
    if p = g.core.id then []
    -- a parent below its own child closes a circle
    else if p ∈ g.descendantIds then [.circularParent child.id g.core.id p]
    else [.wrongParent child.id g.core.id (some p)]

/-- The child port of a mapping: in the direction of the boundary port of that
name, or in any if there is none. -/
def mapped? (g : Container Node) (name : String) (m : PortMapping) : Option Port := do
  let child ← g.inside.node? m.child
  match g.boundary.ports.find? (·.port.name = name) with
  | some p => child.portNamed? m.portName p.port.direction
  | none => child.ports.find? (·.name = m.portName)

/-- Each mapping leads to a port of a child. -/
def mappingIssues (g : Container Node) : List Issue :=
  g.boundary.mappings.toList.flatMap fun (name, m) =>
    flag ((g.mapped? name m).isNone) (.unresolvedMapping name g.core.id m)

/-- Each boundary port has a mapping. -/
def boundaryIssues (g : Container Node) : List Issue :=
  g.boundary.ports.flatMap fun p =>
    flag (!g.boundary.mappings.contains p.port.name) (.unmappedPort p.port.name g.core.id)

/-- A connection inside joins two children, and their ports where they resolve. -/
def connectionIssues (g : Container Node) (c : Connection) : List Issue :=
  -- the ports count only once the connection by itself breaks no rule
  let found := match g.inside.port? c.source, g.inside.port? c.target with
    | some source, some target =>
      if c.issues.isEmpty then c.issuesBetween source target else c.issues
    | _, _ => c.issues
  flag ((g.inside.node? c.source.node).isNone ∨ (g.inside.node? c.target.node).isNone)
      (.strayConnection c.id g.core.id) ++
    found.map (.within (.connection c.id))

/-- The rules for a container itself, beside those for every node. -/
def issues (g : Container Node) : List Issue :=
  flag g.inside.nodes.isEmpty (.noChildren g.core.id) ++
    flag (g.core.id ∈ g.descendantIds) (.containsItself g.core.id) ++
    g.inside.nodes.flatMap g.parentIssues ++
    g.mappingIssues ++ g.boundaryIssues ++
    g.inside.connections.flatMap g.connectionIssues

end Container

mutual

/-- The issues of a node and of all below it. -/
def Node.issues : Node → List Issue
  | .code c => (Node.code c).ownIssues
  | .graph ⟨core, boundary, ⟨nodes, connections⟩⟩ =>
    (Node.graph ⟨core, boundary, ⟨nodes, connections⟩⟩).ownIssues ++
      Container.issues ⟨core, boundary, ⟨nodes, connections⟩⟩ ++
      Forest.issues .child nodes

/-- The issues of the nodes, each at its place. -/
def Forest.issues (place : String → Place) : List Node → List Issue
  | [] => []
  | n :: rest => n.issues.map (.within (place n.id)) ++ Forest.issues place rest

end

def Node.validate (n : Node) : Report := ⟨n.issues⟩

/-! ## Graphs -/

/-- Ids that have occurred before. -/
def duplicateIssues (seen : List String) : List String → List Issue
  | [] => []
  | id :: rest =>
    flag (id ∈ seen) (.duplicateNodeId id) ++ duplicateIssues (id :: seen) rest

namespace FlowGraph

/-- A root node has no parent. -/
def rootParentIssues (n : Node) : List Issue :=
  match n.core.parent with
  | none => []
  | some parent => [.rootParent n.id parent]

/-- A root connection has no scope and joins ports of root nodes. -/
def connectionIssues (g : FlowGraph) (c : Connection) : List Issue :=
  flag c.scope.isSome (.scopedRootConnection c.id) ++
    match g.root.port? c.source, g.root.port? c.target with
    | some source, some target => c.issuesBetween source target
    | _, _ => c.issues ++ [.unresolvedConnection c.id]

/-- The issues of a graph and of all its nodes. -/
def issues (g : FlowGraph) : List Issue :=
  flag (Text.isBlank g.id) .blankGraphId ++
    flag (Text.isBlank g.name) .blankGraphName ++
    duplicateIssues [] (g.allNodes.map (·.id)) ++
    g.root.nodes.flatMap rootParentIssues ++
    g.root.connections.flatMap g.connectionIssues ++
    Forest.issues .node g.root.nodes

def validate (g : FlowGraph) : Report := ⟨g.issues⟩

end FlowGraph

end FlowNest
