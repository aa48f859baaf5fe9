import FlowNest.Json

/-!
# FlowNest — ports

A node takes data in and gives it out at its ports. A port has a direction and
a type tag; an output may feed an input when the tags agree, or one of them is
the wildcard. Other parts of a graph refer to a port by an `Endpoint`, the id of
a node with the id of a port, which may or may not lead to one.
-/

namespace FlowNest

/-- Data enters a node at its inputs and leaves it at its outputs. -/
inductive Direction where
  | input
  | output
deriving DecidableEq, Inhabited

def Direction.label : Direction → String
  | .input => "input"
  | .output => "output"

/-- The type tag of a port. -/
structure DataType where
  tag : String
deriving DecidableEq, Inhabited

namespace DataType

/-- The wildcard tag. -/
def any : DataType := ⟨"Any"⟩

/-- Tags go together when they are the same or one of them is the wildcard. -/
def accepts (a b : DataType) : Bool :=
  a = any || b = any || a = b

end DataType

/-- A reference to a port of a node, by ids. -/
structure Endpoint where
  node : String
  port : String
deriving DecidableEq, Inhabited

/-- The reference as it stands in messages. -/
def Endpoint.text (e : Endpoint) : String :=
  e.node ++ ":" ++ e.port

/-- A typed connection point of the node it names as its owner. -/
structure Port where
  id : String
  name : String
  direction : Direction
  dataType : DataType
  required : Bool
  defaultValue : Option Constant
  owner : String
deriving BEq

namespace Port

/-- The id of the port of this name on a node. -/
def idOf (owner name : String) : String :=
  owner ++ "." ++ name

/-- An optional port without default; its id comes from its owner and name. -/
def of (owner name : String) (direction : Direction) (dataType : DataType) : Port where
  id := idOf owner name
  name
  direction
  dataType
  required := false
  defaultValue := none
  owner

/-- The reference to the port at its owner. -/
def endpoint (p : Port) : Endpoint :=
  ⟨p.owner, p.id⟩

/-- May data flow from the first port, an output, to the second, an input? -/
def feeds (source target : Port) : Bool :=
  source.direction = .output && target.direction = .input &&
    source.dataType.accepts target.dataType

end Port

end FlowNest
