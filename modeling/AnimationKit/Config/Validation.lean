import AnimationKit.Config.Basic

/-!
The constraints on a config. Fields of other families are not looked at, and neither is the kind: an
unknown one is reported where an animation is wanted.
-/
namespace AnimationKit.Config

/-- A finite number greater than zero. -/
def isPositive (value : Binary64) : Bool := value.isFinite && Binary64.zero.lt value

/-- A finite number that is not less than zero. -/
def isNonNegative (value : Binary64) : Bool := value.isFinite && Binary64.zero.le value

/-- Checks the field that a family reads. -/
def validateFamily (config : Config) : Family → Except ConfigError Unit
  | .fade =>
    match config.opacity with
    | some o =>
      if Easing.inUnit o.start && Easing.inUnit o.stop then .ok ()
      else .error (.opacityOutOfRange o.start o.stop)
    | none => .ok ()
  | .slide | .bounce =>
    match config.distance with
    | some d => if d.isFinite then .ok () else .error (.nonFinite "distance")
    | none => .ok ()
  | .scale =>
    match config.scale with
    | some s => if isPositive s then .ok () else .error (.nonPositiveScale s)
    | none => .ok ()
  | .rotate =>
    match config.degrees with
    | some d =>
      if d.start.isFinite && d.stop.isFinite then .ok () else .error (.nonFinite "degrees")
    | none => .ok ()

/-- The first constraint that a config violates: duration, then delay, then the family's field. -/
def validate (config : Config) : Except ConfigError Unit :=
  if !isPositive config.duration then .error (.nonPositiveDuration config.duration)
  else if !isNonNegative config.delay then .error (.negativeDelay config.delay)
  else
    match config.kind with
    | .family f => config.validateFamily f
    | .unsupported _ => .ok ()

end AnimationKit.Config
