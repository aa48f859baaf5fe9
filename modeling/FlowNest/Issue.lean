import FlowNest.Node
import FlowNest.Text.Quoted

/-!
# FlowNest — issues

What validation can find wrong with a connection, a node, a container or a whole
graph. A finding is never an error: a graph with issues is still a graph. An
issue found inside something is placed there, and its message says so first.
-/

namespace FlowNest

/-- The parts of a connection that must not be blank. -/
inductive ConnectionField where
  | id
  | sourceNode
  | sourcePort
  | targetNode
  | targetPort
deriving DecidableEq

def ConnectionField.label : ConnectionField → String
  | .id => "id"
  | .sourceNode => "source node id"
  | .sourcePort => "source port id"
  | .targetNode => "target node id"
  | .targetPort => "target port id"

/-- Where an issue was found. -/
inductive Place where
  | connection (id : String)
  | child (id : String)
  | node (id : String)
  | named (text : String)
deriving DecidableEq

def Place.text : Place → String
  | .connection id => "connection '" ++ id ++ "'"
  | .child id => "child '" ++ id ++ "'"
  | .node id => "node '" ++ id ++ "'"
  | .named text => text

/-- Something that is wrong with a graph or a part of it. Things are named by
their ids, ports of a node by their names. -/
inductive Issue where
  | blankConnectionField (field : ConnectionField)
  | selfConnection (connection : String) (endpoint : Endpoint)
  | sourceMismatch (port : String) (source : Endpoint)
  | targetMismatch (port : String) (target : Endpoint)
  | sourceNotOutput (port : String)
  | targetNotInput (port : String)
  | incompatible (source : String) (sourceType : DataType) (target : String)
      (targetType : DataType)
  | blankNodeId
  | blankNodeName (node : String)
  | blankNodeKind (node : String)
  | noPorts (node : String)
  | foreignPort (port node owner : String)
  | duplicatePortName (node port : String)
  | noChildren (container : String)
  | containsItself (container : String)
  | circularParent (child container parent : String)
  | wrongParent (child container : String) (parent : Option String)
  | unresolvedMapping (port container : String) (mapping : PortMapping)
  | unmappedPort (port container : String)
  | strayConnection (connection container : String)
  | blankGraphId
  | blankGraphName
  | duplicateNodeId (node : String)
  | rootParent (node parent : String)
  | scopedRootConnection (connection : String)
  | unresolvedConnection (connection : String)
  | within (place : Place) (issue : Issue)
  | stated (text : String)
deriving DecidableEq

def Issue.message : Issue → String
  | .blankConnectionField field => "Connection " ++ field.label ++ " must not be blank"
  | .selfConnection connection e =>
    "Connection '" ++ connection ++ "' connects port '" ++ e.port ++ "' of node '" ++ e.node ++
      "' to itself"
  | .sourceMismatch port source =>
    "Source port '" ++ port ++ "' does not match connection source " ++ source.text
  | .targetMismatch port target =>
    "Target port '" ++ port ++ "' does not match connection target " ++ target.text
  | .sourceNotOutput port => "Source port '" ++ port ++ "' must be an output port"
  | .targetNotInput port => "Target port '" ++ port ++ "' must be an input port"
  | .incompatible source sourceType target targetType =>
    "Port '" ++ source ++ "' (" ++ sourceType.tag ++ ") is not compatible with port '" ++
      target ++ "' (" ++ targetType.tag ++ ")"
  | .blankNodeId => "Node id must not be blank"
  | .blankNodeName node => "Node '" ++ node ++ "' name must not be blank"
  | .blankNodeKind node => "Node '" ++ node ++ "' type must not be blank"
  | .noPorts node => "Node '" ++ node ++ "' must have at least one port"
  | .foreignPort port node owner =>
    "Port '" ++ port ++ "' of node '" ++ node ++ "' is owned by '" ++ owner ++ "'"
  | .duplicatePortName node port =>
    "Node '" ++ node ++ "' has duplicate port name '" ++ port ++ "'"
  | .noChildren container => "Graph node '" ++ container ++ "' must have at least one child"
  | .containsItself container => "Graph node '" ++ container ++ "' contains itself"
  | .circularParent child container parent =>
    "Child '" ++ child ++ "' of '" ++ container ++ "' has circular parent '" ++ parent ++ "'"
  | .wrongParent child container parent =>
    "Child '" ++ child ++ "' of '" ++ container ++ "' has parent " ++ Text.quotedOption parent
  | .unresolvedMapping port container mapping =>
    "Port mapping '" ++ port ++ "' of '" ++ container ++ "' does not resolve to child port " ++
      mapping.child ++ ":" ++ mapping.portName
  | .unmappedPort port container =>
    "Boundary port '" ++ port ++ "' of '" ++ container ++ "' has no port mapping"
  | .strayConnection connection container =>
    "Internal connection '" ++ connection ++ "' of '" ++ container ++
      "' must connect two children"
  | .blankGraphId => "Flow graph id must not be blank"
  | .blankGraphName => "Flow graph name must not be blank"
  | .duplicateNodeId node => "Duplicate node id '" ++ node ++ "'"
  | .rootParent node parent =>
    "Root node '" ++ node ++ "' must not have a parent (found '" ++ parent ++ "')"
  | .scopedRootConnection connection =>
    "Root connection '" ++ connection ++ "' must have no scope"
  | .unresolvedConnection connection =>
    "Connection '" ++ connection ++ "' endpoints do not resolve to root node ports"
  | .within place issue => place.text ++ ": " ++ issue.message
  | .stated text => text

/-- What a validation found; it succeeds when it found nothing. -/
structure Report where
  issues : List Issue
deriving DecidableEq

namespace Report

def success (r : Report) : Bool :=
  r.issues.isEmpty

/-- Adds what was found at a place. -/
def merge (r : Report) (place : Place) (found : Report) : Report :=
  ⟨r.issues ++ found.issues.map (.within place)⟩

end Report

end FlowNest
