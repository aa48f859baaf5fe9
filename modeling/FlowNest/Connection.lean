import FlowNest.Port

/-!
# FlowNest — connections

A connection is a directed edge from an output to an input. It refers to its
two ends by ids only, and belongs to one scope: the inside of a container, or
the root of the graph.
-/

namespace FlowNest

/-- The scope something belongs to: the container of that id, or the root. -/
abbrev ScopeId := Option String

/-- A directed edge between two ports of one scope. A capacity of zero means
that sender and receiver meet. -/
structure Connection where
  id : String
  source : Endpoint
  target : Endpoint
  capacity : UInt64
  scope : ScopeId
  packetType : Option String
deriving DecidableEq, Inhabited

namespace Connection

/-- An unbuffered connection of the root scope. -/
def of (id : String) (source target : Endpoint) : Connection :=
  ⟨id, source, target, 0, none, none⟩

/-- The connection of two ports at their owners. -/
def between (id : String) (source target : Port) : Connection :=
  of id source.endpoint target.endpoint

/-- Does the channel hold packets? -/
def buffered (c : Connection) : Bool :=
  0 < c.capacity

/-- Is one of the ends at the node? -/
def touches (c : Connection) (nodeId : String) : Bool :=
  c.source.node = nodeId || c.target.node = nodeId

/-- The connection in another scope. -/
def inScope (c : Connection) (scope : ScopeId) : Connection :=
  { c with scope }

end Connection

end FlowNest
