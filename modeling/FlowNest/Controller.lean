import FlowNest.Propagation
import FlowNest.Status
import FlowNest.Text.Quoted

/-!
# FlowNest — controlling a graph

Commands for a whole graph, and changes to one node wherever it stands. Each
gives a new graph. Pausing, resuming and stopping are passed on to the runtime
registry as well, if the controller has one; starting is not, since whoever
launches the nodes does that.
-/

namespace FlowNest

/-- A command to every node of a graph. -/
inductive Command where
  | start
  | pause
  | resume
  | stop
deriving DecidableEq

/-- The state a command leads to. -/
def Command.state : Command → ExecutionState
  | .start | .resume => .running
  | .pause => .paused
  | .stop => .idle

/-- A registry of running nodes, as a controller sees it. -/
class RuntimeRegistry (ρ : Type) where
  pauseAll : ρ → ρ
  resumeAll : ρ → ρ
  stopAll : ρ → ρ

/-- What a command tells a registry. -/
def Command.forward {ρ : Type} [RuntimeRegistry ρ] : Command → ρ → ρ
  | .start => id
  | .pause => RuntimeRegistry.pauseAll
  | .resume => RuntimeRegistry.resumeAll
  | .stop => RuntimeRegistry.stopAll

/-- Why a change to one node fails. -/
inductive ControlError where
  | nodeNotFound (id : String)
deriving DecidableEq

def ControlError.message : ControlError → String
  | .nodeNotFound id => "Node '" ++ id ++ "' not found in flow graph"

namespace FlowGraph

def mapRoots (g : FlowGraph) (f : Node → Node) : FlowGraph :=
  g.withNodes (g.root.nodes.map f)

/-- Pushes a state from every root node. -/
def withState (g : FlowGraph) (state : ExecutionState) : FlowGraph :=
  g.mapRoots (·.withState state true)

/-- Pushes a configuration from every root node, which keeps its independence. -/
def withControl (g : FlowGraph) (control : ControlConfig) : FlowGraph :=
  g.mapRoots fun n => n.withControl (control.withIndependence n.independent) true

/-- Edits the node with the id. -/
def edit (g : FlowGraph) (id : String) (f : Node → Node) : Except ControlError FlowGraph :=
  match g.update? id f with
  | some g => .ok g
  | none => .error (.nodeNotFound id)

/-- Pushes a state from the node with the id. -/
def setNodeState (g : FlowGraph) (id : String) (state : ExecutionState) :
    Except ControlError FlowGraph :=
  g.edit id (·.withState state true)

/-- Pushes a configuration from the node with the id. -/
def setNodeControl (g : FlowGraph) (id : String) (control : ControlConfig) :
    Except ControlError FlowGraph :=
  g.edit id (·.withControl control true)

end FlowGraph

/-- A graph under control, with or without a registry of its running nodes. -/
structure Controller (ρ : Type) where
  graph : FlowGraph
  registry : Option ρ

namespace Controller

variable {ρ : Type}

/-- Gives a command: the graph after it, and the registry it was passed on to. -/
def command [RuntimeRegistry ρ] (c : Controller ρ) (command : Command) : Controller ρ where
  graph := c.graph.withState command.state
  registry := c.registry.map command.forward

/-- The controller in one line. -/
def describe (c : Controller ρ) : String :=
  "RootControlNode \x7b flow_graph: " ++ Text.quoted c.graph.id ++ ", registry: " ++
    toString c.registry.isSome ++ " \x7d"

end Controller

end FlowNest
