import FlowNest.Forest

/-!
# FlowNest — flow graphs

A flow graph is a root scope with a name and some notes on it. It is a value:
every edit gives a new graph. The scopes of a graph are its root and the inside
of each of its containers.
-/

namespace FlowNest

/-- A flow graph; `version` is the version of its definition. -/
structure FlowGraph where
  id : String
  name : String
  version : String
  root : Scope Node
  metadata : StringMap String
  platforms : List String

instance : BEq (Scope Node) := ⟨fun a b => a.nodes == b.nodes && a.connections == b.connections⟩

deriving instance BEq for FlowGraph

/-- A scope without the node of an id and the connections that touch it. -/
def Scope.without (s : Scope Node) (id : String) : Scope Node where
  nodes := s.nodes.filter (·.id ≠ id)
  connections := s.connections.filter (!·.touches id)

namespace FlowGraph

/-- A graph without nodes. -/
def of (id name version : String) : FlowGraph :=
  ⟨id, name, version, ⟨[], []⟩, ∅, []⟩

def withNodes (g : FlowGraph) (nodes : List Node) : FlowGraph :=
  { g with root := { g.root with nodes } }

/-- Adds a node to the root. -/
def addNode (g : FlowGraph) (n : Node) : FlowGraph :=
  g.withNodes (g.root.nodes ++ [n.withParent none])

/-- Adds a connection to the root. -/
def addConnection (g : FlowGraph) (c : Connection) : FlowGraph :=
  { g with root := { g.root with connections := g.root.connections ++ [c] } }

/-- Takes the connections with the id from the root. -/
def removeConnection (g : FlowGraph) (id : String) : FlowGraph :=
  { g with root := { g.root with connections := g.root.connections.filter (·.id ≠ id) } }

/-- All nodes, each before those below it. -/
def allNodes (g : FlowGraph) : List Node :=
  Forest.preorder g.root.nodes

/-- The first node with the id. -/
def find? (g : FlowGraph) (id : String) : Option Node :=
  Forest.find? id g.root.nodes

/-- The scope that the node with the id stands in. -/
def scopeOf? (g : FlowGraph) (id : String) : Option ScopeId :=
  Forest.scopeOf? id none g.root.nodes

/-- The graph with the node with the id replaced by its image. -/
def update? (g : FlowGraph) (id : String) (f : Node → Node) : Option FlowGraph :=
  (Forest.update? id f g.root.nodes).map g.withNodes

/-- The container that the id leads to. -/
def container? (g : FlowGraph) (id : String) : Option (Container Node) :=
  (g.find? id).bind Node.graph?

/-- The graph with a container in the place of the node with its id. -/
def putContainer? (g : FlowGraph) (c : Container Node) : Option FlowGraph :=
  g.update? c.core.id fun _ => .graph c

/-- What stands in a scope. -/
def scope? (g : FlowGraph) : ScopeId → Option (Scope Node)
  | none => some g.root
  | some id => (g.container? id).map (·.inside)

/-- The graph with another content in a scope. -/
def withScope? (g : FlowGraph) (scope : ScopeId) (content : Scope Node) : Option FlowGraph :=
  match scope with
  | none => some { g with root := content }
  | some id => do
    let c ← g.container? id
    g.putContainer? { c with inside := content }

/-- The graph without the node of the id, all below it, and the connections of
its scope that touch it; the same graph if there is none. -/
def removeNode (g : FlowGraph) (id : String) : FlowGraph :=
  ((do
    let scope ← g.scopeOf? id
    let content ← g.scope? scope
    g.withScope? scope (content.without id)) : Option FlowGraph).getD g

end FlowGraph

end FlowNest
