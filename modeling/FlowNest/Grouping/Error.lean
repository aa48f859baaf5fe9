import FlowNest.ConstructionError
import FlowNest.Port

/-!
# FlowNest — why nodes cannot be grouped

The errors of grouping and ungrouping. With any of them nothing is built.
-/

namespace FlowNest

/-- Why a boundary port cannot be built for an endpoint. -/
inductive BoundaryFault where
  | unresolved (outer : Endpoint) (connection : String)
  | typeMismatch (connection : String) (inner outer : DataType)
  | unbridgeable (cause : ConstructionError)
  | missingPort (enclosing : String) (direction : Direction)

def BoundaryFault.message : BoundaryFault → String
  | .unresolved outer connection =>
    "external endpoint " ++ outer.text ++ " of connection '" ++ connection ++
      "' does not resolve"
  | .typeMismatch connection inner outer =>
    "connection '" ++ connection ++ "' joins " ++ inner.tag ++ " and " ++ outer.tag
  | .unbridgeable cause => cause.message
  | .missingPort enclosing direction =>
    "enclosing port '" ++ enclosing ++ "' maps to a missing " ++ direction.label ++ " port"

/-- Why nodes cannot be grouped, or a container not be ungrouped. -/
inductive GroupingError where
  | tooFewNodes (requested resolved : Nat)
  | incompatibleBoundary (endpoint : Endpoint) (fault : BoundaryFault)
  | nodeNotFound (id : String)
  | notAContainer (id : String)
  | mixedScopes
  | construction (cause : ConstructionError)

def GroupingError.message : GroupingError → String
  | .tooFewNodes requested resolved =>
    "Grouping needs at least 2 nodes, " ++ toString resolved ++ " of " ++ toString requested ++
      " selected ids resolved"
  | .incompatibleBoundary e fault =>
    "Boundary port for '" ++ e.port ++ "' of node '" ++ e.node ++ "' cannot be built: " ++
      fault.message
  | .nodeNotFound id => "Node '" ++ id ++ "' not found in flow graph"
  | .notAContainer id => "Node '" ++ id ++ "' is not a graph node"
  | .mixedScopes => "Selected nodes do not share a single parent scope"
  | .construction cause => cause.message

end FlowNest
