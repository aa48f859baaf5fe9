import FlowNest.ConstructionError

/-!
# FlowNest — execution states and control settings

What every node carries for the one who runs it: the state it is in, and how it
is to be controlled. The pause buffer of a configuration is never empty; the
type keeps that.
-/

namespace FlowNest

/-- The state a node is in, as the one who runs it sees it. -/
inductive ExecutionState where
  | idle
  | running
  | paused
  | error
deriving DecidableEq, Inhabited

def ExecutionState.label : ExecutionState → String
  | .idle => "idle"
  | .running => "running"
  | .paused => "paused"
  | .error => "error"

/-- How a node is controlled. `independentControl` exempts it, with all below it,
from what is pushed down from a node above. -/
structure ControlConfig where
  pauseBufferSize : UInt32
  speedAttenuationMs : UInt64
  autoResumeOnError : Bool
  independentControl : Bool
  pauseBufferSize_ne_zero : pauseBufferSize ≠ 0
deriving DecidableEq

namespace ControlConfig

/-- The configuration with these settings, unless its pause buffer is empty. -/
def of (pauseBufferSize : UInt32) (speedAttenuationMs : UInt64)
    (autoResumeOnError independentControl : Bool) : Except ConstructionError ControlConfig :=
  if h : pauseBufferSize ≠ 0 then
    .ok ⟨pauseBufferSize, speedAttenuationMs, autoResumeOnError, independentControl, h⟩
  else .error .zeroPauseBufferSize

/-- A pause buffer of a hundred, full speed, no resumption, and no independence. -/
def standard : ControlConfig :=
  ⟨100, 0, false, false, by decide⟩

instance : Inhabited ControlConfig := ⟨standard⟩

/-- The same settings with another pause buffer. -/
def withPauseBufferSize (c : ControlConfig) (size : UInt32) :
    Except ConstructionError ControlConfig :=
  of size c.speedAttenuationMs c.autoResumeOnError c.independentControl

/-- The same settings with or without independence. -/
def withIndependence (c : ControlConfig) (independent : Bool) : ControlConfig :=
  { c with independentControl := independent }

/-- The settings of a configuration pass the check that it has passed. -/
theorem of_settings (c : ControlConfig) :
    of c.pauseBufferSize c.speedAttenuationMs c.autoResumeOnError c.independentControl =
      .ok c := by
  simp [of, c.pauseBufferSize_ne_zero]

@[simp] theorem independentControl_withIndependence (c : ControlConfig) (b : Bool) :
    (c.withIndependence b).independentControl = b := rfl

@[simp] theorem withIndependence_withIndependence (c : ControlConfig) (a b : Bool) :
    (c.withIndependence a).withIndependence b = c.withIndependence b := rfl

@[simp] theorem withIndependence_self (c : ControlConfig) :
    c.withIndependence c.independentControl = c := rfl

end ControlConfig

end FlowNest
