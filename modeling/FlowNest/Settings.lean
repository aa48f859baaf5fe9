import FlowNest.Control
import FlowNest.Decimal.Nearest
import FlowNest.Text.Blank

/-!
# FlowNest — settings

What the engine uses when it creates containers: the control configuration they
get, and the margin left around the nodes that are moved into them. Both have
standard values, which variables of the environment override.

A setting is read without the blanks around it. Whole numbers may have a plus
sign; a margin may be written with a point and a power of ten, and has to be
finite and not below zero.
-/

namespace FlowNest

/-- Settings for new containers. -/
structure Settings where
  control : ControlConfig
  margin : Float

namespace Settings

def standard : Settings := ⟨.standard, 50⟩

def pauseBufferSizeKey : String := "FBP_PAUSE_BUFFER_SIZE"
def speedAttenuationKey : String := "FBP_SPEED_ATTENUATION_MS"
def autoResumeKey : String := "FBP_AUTO_RESUME_ON_ERROR"
def marginKey : String := "FBP_GROUP_MARGIN"

/-! ## The texts of values -/

/-- A run of digits with an optional plus sign, below a bound. -/
def readNat? (bound : Nat) (s : List Char) : Option Nat :=
  let ds := match s with
    | '+' :: s => s
    | s => s
  let n := Decimal.ofDigits ds
  if ds.isEmpty || !ds.all Char.isDigit || bound ≤ n then none else some n

def readBool? (s : List Char) : Option Bool :=
  if s = "true".toList then some true
  else if s = "false".toList then some false
  else none

/-- A power of ten behind a number, or nothing. -/
def readPower? : List Char → Option Int
  | [] => some 0
  | e :: s =>
    let (negative, ds) := match s with
      | '-' :: s => (true, s)
      | '+' :: s => (false, s)
      | s => (false, s)
    if e.toLower ≠ 'e' || ds.isEmpty || !ds.all Char.isDigit then none
    else
      let n : Int := Decimal.ofDigits ds
      some (if negative then -n else n)

/-- A number without its sign: digits with or without a point, of which there is
at least one, and a power of ten; or the name of a special number. -/
def readMagnitude? (s : List Char) : Option Float :=
  let word := String.ofList (s.map Char.toLower)
  if word = "inf" || word = "infinity" then some (1 / 0)
  else if word = "nan" then some (0 / 0)
  else do
    let (whole, rest) := s.span Char.isDigit
    let (fraction, rest) := match rest with
      | '.' :: rest => rest.span Char.isDigit
      | rest => ([], rest)
    if whole.isEmpty && fraction.isEmpty then none
    let power ← readPower? rest
    return Decimal.nearest (Decimal.ofDigits (whole ++ fraction)) (power - fraction.length)

def readFloat? : List Char → Option Float
  | '-' :: s => (readMagnitude? s).map (-·)
  | '+' :: s => readMagnitude? s
  | s => readMagnitude? s

/-! ## The environment -/

/-- The value of a variable, if it is set. -/
def setting? {α : Type} (read : List Char → Option α) (lookup : String → Option String)
    (key : String) : Except ConstructionError (Option α) :=
  match lookup key with
  | none => .ok none
  | some raw =>
    match read (Text.trim raw).toList with
    | some v => .ok (some v)
    | none => .error (.invalidSetting key raw)

/-- A margin is finite and not below zero. -/
def checkMargin (margin : Float) : Except ConstructionError Float :=
  if !margin.isFinite || margin < 0 then
    .error (.invalidSetting marginKey (messageNumber.float margin))
  else .ok margin

/-- The standard settings, overridden by the variables that are set. -/
def ofLookup (lookup : String → Option String) : Except ConstructionError Settings := do
  let size ← setting? (readNat? UInt32.size) lookup pauseBufferSizeKey
  let control ← match size with
    | some n => ControlConfig.standard.withPauseBufferSize n.toUInt32
    | none => pure .standard
  -- the variables are looked at one by one, so the first wrong one is reported
  let ms ← setting? (readNat? UInt64.size) lookup speedAttenuationKey
  let auto ← setting? readBool? lookup autoResumeKey
  let margin ← setting? readFloat? lookup marginKey
  let margin ← match margin with
    | some m => checkMargin m
    | none => pure standard.margin
  return {
    control := { control with
      speedAttenuationMs := (ms.map Nat.toUInt64).getD control.speedAttenuationMs
      autoResumeOnError := auto.getD control.autoResumeOnError }
    margin }

end Settings

end FlowNest
