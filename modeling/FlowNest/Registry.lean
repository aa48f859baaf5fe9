import FlowNest.Controller

/-!
# FlowNest — the registry of running nodes

Whoever runs a node registers it and gets a handle, through which it sees the
last state the node was told. Registering a node again replaces its registration:
the old handle is detached, and keeps for good what it was told last. A node
that has been told nothing yet is kept apart from one that was told to be idle,
although both count as idle.

All registrations ever made are kept, in order, and a handle is a place in that
list; the registry itself consists of those that are still attached.
-/

namespace FlowNest

/-- What a registration was told last. -/
inductive Signal where
  | registered
  | told (state : ExecutionState)
deriving DecidableEq

/-- The state a signal amounts to. -/
def Signal.state : Signal → ExecutionState
  | .registered => .idle
  | .told state => state

/-- A registration of a node; it is attached while the registry reaches it. -/
structure Registration where
  node : String
  signal : Signal
  attached : Bool
deriving DecidableEq

namespace Registration

def tell (state : ExecutionState) (x : Registration) : Registration :=
  if x.attached then { x with signal := .told state } else x

def detach (x : Registration) : Registration :=
  { x with attached := false }

/-- Is this the node's current registration? -/
def isOf (x : Registration) (node : String) : Bool :=
  x.attached && x.node = node

end Registration

/-- A node's view of its registration, the `place`-th one made. -/
structure Handle where
  place : Nat
  node : String
  control : ControlConfig
deriving DecidableEq

/-- All registrations made, the detached ones included. -/
structure Registry where
  registrations : List Registration
deriving DecidableEq

namespace Registry

def empty : Registry := ⟨[]⟩

/-- Edits the current registration of a node. -/
def editNode (r : Registry) (node : String) (f : Registration → Registration) : Registry :=
  ⟨r.registrations.map fun x => if x.isOf node then f x else x⟩

/-- Is the node registered? -/
def contains (r : Registry) (node : String) : Bool :=
  r.registrations.any (·.isOf node)

/-- Registers a node, in the place of any earlier registration. -/
def register (r : Registry) (node : String) (control : ControlConfig) : Registry × Handle :=
  -- the earlier registration keeps its place, so that its handle still sees it
  (⟨(r.editNode node .detach).registrations ++ [⟨node, .registered, true⟩]⟩,
    ⟨r.registrations.length, node, control⟩)

/-- Takes the node out of the registry. -/
def unregister (r : Registry) (node : String) : Registry :=
  r.editNode node .detach

/-- The registered nodes, in the order of their ids. -/
def nodeIds (r : Registry) : List String :=
  ((r.registrations.filter (·.attached)).map (·.node)).mergeSort

/-- The state that a registered node is in. -/
def stateOf? (r : Registry) (node : String) : Option ExecutionState :=
  (r.registrations.find? (·.isOf node)).map (·.signal.state)

/-- Tells one node its state. -/
def setState (r : Registry) (node : String) (state : ExecutionState) :
    Except ControlError Registry :=
  if r.contains node then .ok (r.editNode node (.tell state)) else .error (.nodeNotFound node)

/-- Tells every registered node its state. -/
def broadcast (r : Registry) (state : ExecutionState) : Registry :=
  ⟨r.registrations.map (.tell state)⟩

/-- Launches every registered node. -/
def startAll (r : Registry) : Registry :=
  r.broadcast .running

/-- What is left for the handles once the registry is gone. -/
def drop (r : Registry) : Registry :=
  ⟨r.registrations.map .detach⟩

instance : RuntimeRegistry Registry where
  pauseAll r := r.broadcast .paused
  resumeAll r := r.broadcast .running
  stopAll r := r.broadcast .idle

/-- The state that a handle sees. -/
def stateAt (r : Registry) (h : Handle) : ExecutionState :=
  match r.registrations[h.place]? with
  | some x => x.signal.state
  | none => .idle

end Registry

end FlowNest
