import FlowNest.Graph

/-!
# FlowNest — status of a graph

How many nodes of a graph are in each state, and the one state that sums them
up: an error anywhere outweighs running nodes, these outweigh paused ones, and
without any of them the graph is idle.
-/

namespace FlowNest

/-- A tally of nodes. -/
structure Status where
  total : Nat
  idle : Nat
  running : Nat
  paused : Nat
  error : Nat
  independent : Nat
deriving DecidableEq

namespace Status

def ofNodes (nodes : List Node) : Status where
  total := nodes.length
  idle := nodes.countP (·.core.state = .idle)
  running := nodes.countP (·.core.state = .running)
  paused := nodes.countP (·.core.state = .paused)
  error := nodes.countP (·.core.state = .error)
  independent := nodes.countP (·.independent)

/-- The weightiest state that occurs. -/
def overall (s : Status) : ExecutionState :=
  if 0 < s.error then .error
  else if 0 < s.running then .running
  else if 0 < s.paused then .paused
  else .idle

end Status

/-- The tally of all nodes at all depths. -/
def FlowGraph.status (g : FlowGraph) : Status :=
  .ofNodes g.allNodes

end FlowNest
