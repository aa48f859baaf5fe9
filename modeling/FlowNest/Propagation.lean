import FlowNest.Node

/-!
# FlowNest — propagation

A state or a control configuration given to a container can be pushed down to
what is inside. A push stops at an independent node, which is left as it is with
all below it; the node the push starts from takes it in any case. What is pushed
is written into each node reached, so nothing is resolved later.

* `Node.withState`   — pushes a state;
* `Node.withControl` — pushes a control configuration; every node reached below
  keeps its own independence.
-/

namespace FlowNest

mutual

/-- Edits the core of a node and of every node the push reaches below it. -/
def Node.push (f : NodeCore → NodeCore) : Node → Node
  | .code c => .code { c with core := f c.core }
  | .graph ⟨core, boundary, ⟨nodes, connections⟩⟩ =>
    .graph ⟨f core, boundary, ⟨Forest.push f nodes, connections⟩⟩

/-- Pushes to the nodes of a container, except the independent ones. -/
def Forest.push (f : NodeCore → NodeCore) : List Node → List Node
  | [] => []
  | n :: rest => (if n.independent then n else n.push f) :: Forest.push f rest

end

namespace Node

/-- Pushes to what is inside a node, and leaves its own core. -/
def pushBelow (f : NodeCore → NodeCore) : Node → Node
  | .code c => .code c
  | .graph g => .graph { g with inside := { g.inside with nodes := Forest.push f g.inside.nodes } }

/-- The node in a state; with `propagate`, what the push reaches is in it too. -/
def withState (n : Node) (state : ExecutionState) (propagate : Bool) : Node :=
  -- the node itself takes the state, independent or not
  let n := n.withCore { n.core with state }
  if propagate then n.pushBelow fun core => { core with state } else n

/-- The node under a configuration; with `propagate`, what the push reaches is
under it too, but for its independence. -/
def withControl (n : Node) (control : ControlConfig) (propagate : Bool) : Node :=
  let n := n.withCore { n.core with control }
  if propagate then
    n.pushBelow fun core =>
      { core with control := control.withIndependence core.control.independentControl }
  else n

/-- The configuration a node is to be run under: its own. -/
def effectiveControl (n : Node) : ControlConfig :=
  n.core.control

end Node

end FlowNest
