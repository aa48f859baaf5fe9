import FlowNest.Decimal.Style

/-!
# FlowNest — values that cannot be built

The reasons why a position, a control configuration, a boundary port or a
setting is refused. Such a value can be part of no graph, so nothing is built
from it; whatever merely makes a graph ill-formed is reported by validation
instead.
-/

namespace FlowNest

/-- Numbers inside messages: shortest digits, never an exponent, and no fraction
for a whole number; an exact tie goes up. -/
def messageNumber : Decimal.Style where
  plain := none
  wholeFraction := false
  tie := .up
  nan := "NaN"
  infinity := "inf"

/-- The four parts of a boundary port's two ends. -/
inductive EndField where
  | sourceNode
  | sourcePort
  | targetNode
  | targetPort
deriving DecidableEq

def EndField.label : EndField → String
  | .sourceNode => "upstream node id"
  | .sourcePort => "upstream port id"
  | .targetNode => "downstream node id"
  | .targetPort => "downstream port id"

/-- Why a value cannot be built. -/
inductive ConstructionError where
  | invalidPosition (x y : Float)
  | zeroPauseBufferSize
  | blankEndpoint (portName : String) (field : EndField)
  | selfBridge (portName nodeId : String)
  | invalidSetting (key value : String)

def ConstructionError.message : ConstructionError → String
  | .invalidPosition x y =>
    "Position (" ++ messageNumber.float x ++ ", " ++ messageNumber.float y ++
      ") must have finite, non-negative coordinates"
  | .zeroPauseBufferSize => "Pause buffer size must be greater than zero"
  | .blankEndpoint portName field =>
    "Pass-through port '" ++ portName ++ "' has a blank " ++ field.label
  | .selfBridge portName nodeId =>
    "Pass-through port '" ++ portName ++ "' cannot bridge a node to itself (" ++ nodeId ++ ")"
  | .invalidSetting key value => "Invalid value '" ++ value ++ "' for " ++ key

end FlowNest
