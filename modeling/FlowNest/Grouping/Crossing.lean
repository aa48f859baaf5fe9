import FlowNest.FreshName
import FlowNest.Grouping.Error
import FlowNest.Node

/-!
# FlowNest — crossings and the boundary they need

A connection crosses a selection when exactly one of its ends is selected. It
needs a boundary port if that end refers to a port of the crossing's direction;
otherwise it is left in place. All crossings at one inner endpoint share a
boundary port, which faces the outer end of the first of them.

* `Scope.crossings` — the crossings that need a port;
* `Scope.boundary`  — the boundary with a port for each of their inner endpoints,
  in order of first appearance.
-/

namespace FlowNest

/-- A connection that crosses a selection, with the port at its inner end. -/
structure Crossing where
  connection : String
  port : Port
  inner : Endpoint
  outer : Endpoint

/-- How a connection lies to a selection of node ids. -/
inductive Relation where
  | inside
  | outside
  | leaving
  | entering
deriving DecidableEq

def Connection.relation (c : Connection) (ids : List String) : Relation :=
  if c.source.node ∈ ids then
    if c.target.node ∈ ids then .inside else .leaving
  else
    if c.target.node ∈ ids then .entering else .outside

namespace Scope

/-- The crossing of a connection, if it needs a boundary port. -/
def crossing? (s : Scope Node) (ids : List String) (c : Connection) : Option Crossing :=
  -- without a port of the right direction at its inner end a connection stays as it is
  let usable (direction : Direction) (inner outer : Endpoint) : Option Crossing := do
    let port ← s.port? inner
    if port.direction = direction then some ⟨c.id, port, inner, outer⟩ else none
  match c.relation ids with
  | .leaving => usable .output c.source c.target
  | .entering => usable .input c.target c.source
  | .inside | .outside => none

/-- All crossings that need a boundary port. -/
def crossings (s : Scope Node) (ids : List String) : List Crossing :=
  s.connections.filterMap (s.crossing? ids)

end Scope

/-- The first crossing at each inner endpoint. -/
def Crossing.leaders (seen : List Endpoint) : List Crossing → List Crossing
  | [] => []
  | x :: rest =>
    if x.inner ∈ seen then leaders seen rest else x :: leaders (x.inner :: seen) rest

namespace Scope

/-- The port at the outer end of a crossing, if data may flow. -/
def outerPort (s : Scope Node) (x : Crossing) : Except BoundaryFault Port :=
  match s.port? x.outer with
  | none => .error (.unresolved x.outer x.connection)
  | some outer =>
    let flows := match x.port.direction with
      | .input => outer.feeds x.port
      | .output => x.port.feeds outer
    if flows then .ok outer
    else .error (.typeMismatch x.connection x.port.dataType outer.dataType)

end Scope

namespace Boundary

/-- The names of the ports. -/
def names (b : Boundary) : List String :=
  b.ports.map (·.port.name)

/-- A new port of the container `owner` that bridges a child port, at `inner`,
to an outer endpoint. It takes after the child port, but under a free name. -/
def bridge (b : Boundary) (owner : String) (direction : Direction) (port : Port)
    (inner outer : Endpoint) : Except ConstructionError BoundaryPort :=
  let name := freshName b.names port.name
  BoundaryPort.bridge
    { Port.of owner name direction port.dataType with required := port.required } inner outer

/-- The first port of one direction's list whose inner end is at the endpoint. -/
def portFor? (b : Boundary) (direction : Direction) (inner : Endpoint) : Option BoundaryPort :=
  (b.side direction).find? (·.inner = inner)

end Boundary

namespace Scope

/-- Adds the port for the inner endpoint of a leader. All crossings there have
to let data flow. -/
def addLeader (s : Scope Node) (owner : String) (crossings : List Crossing) (b : Boundary)
    (leader : Crossing) : Except BoundaryFault Boundary := do
  -- the leader is the first of them, so the first outer port is its own
  let outers ← (crossings.filter (·.inner = leader.inner)).mapM s.outerPort
  match outers with
  | [] => return b
  | outer :: _ =>
    match b.bridge owner leader.port.direction leader.port leader.inner outer.endpoint with
    | .error cause => .error (.unbridgeable cause)
    | .ok p => return b.add p leader.port.name

/-- Adds a port for each leader in turn. -/
def addLeaders (s : Scope Node) (owner : String) (crossings : List Crossing) :
    Boundary → List Crossing → Except GroupingError Boundary
  | b, [] => .ok b
  | b, leader :: rest =>
    match s.addLeader owner crossings b leader with
    | .error fault => .error (.incompatibleBoundary leader.inner fault)
    | .ok b => s.addLeaders owner crossings b rest

/-- The boundary that keeps all crossings of a selection connected. -/
def boundary (s : Scope Node) (owner : String) (ids : List String) :
    Except GroupingError Boundary :=
  let crossings := s.crossings ids
  s.addLeaders owner crossings .empty (Crossing.leaders [] crossings)

end Scope

end FlowNest
