import AnimationKit.Config.Validation

/-!
The animation that a config describes, with every default filled in. Previews and exports all read
the defaults from here, so a partial config looks the same in each of them.
-/
namespace AnimationKit

/-- The side from which a slide enters. -/
inductive Direction where
  /-- From the left or the top. -/
  | negative
  /-- From the right or the bottom. -/
  | positive
deriving DecidableEq

namespace Direction

def ofDistance : Option Binary64 → Direction
  | some d => if d.lt .zero then negative else positive
  | none => positive

/-- A distance walked in this direction. -/
def signed : Direction → Binary64 → Binary64
  | negative, d => d.neg
  | positive, d => d

def name : Direction → String
  | negative => "negative"
  | positive => "positive"

end Direction

structure Timing where
  duration : Binary64
  delay : Binary64
  easing : Easing
deriving DecidableEq

/-- The parameters of each family. -/
inductive Motion where
  | fade (opacity : Span)
  /-- The distance is a magnitude. -/
  | slide (axis : Axis) (distance : Binary64) (direction : Direction)
  | scale (start : Binary64)
  | rotate (degrees : Span)
  | bounce (height : Binary64)
deriving DecidableEq

/-- One step of an animation: the values of some properties at a fraction of its duration. -/
structure Keyframe where
  offset : Binary64
  declarations : List (String × String)
deriving DecidableEq

structure Animation where
  family : Family
  timing : Timing
  motion : Motion
deriving DecidableEq

namespace Defaults

/-- The offset of a slide and the height of a bounce, in pixels. -/
def distance : Binary64 := .ofNat 50

def opacity : Span := ⟨.zero, .ofNat 1⟩

def axis : Axis := .x

def scale : Binary64 := .ofQuotient 1 2

def degrees : Span := ⟨.zero, .ofNat 360⟩

end Defaults

/-- The steps of a bounce: where each lies, and which part of the height it is lifted by. -/
def bounceSteps : List (Binary64 × Binary64) :=
  [(.zero, .zero), (.ofQuotient 1 5, .zero), (.ofQuotient 2 5, .ofNat 1),
   (.ofQuotient 1 2, .zero), (.ofQuotient 3 5, .ofQuotient 1 2), (.ofQuotient 4 5, .zero),
   (.ofNat 1, .zero)]

namespace Motion

/-- The motion of a family with the parameters that a config has for it. -/
def ofConfig (config : Config) : Family → Motion
  | .fade => .fade (config.opacity.getD Defaults.opacity)
  | .slide =>
    .slide (config.axis.getD Defaults.axis) (config.distance.getD Defaults.distance).abs
      (.ofDistance config.distance)
  | .scale => .scale (config.scale.getD Defaults.scale)
  | .rotate => .rotate (config.degrees.getD Defaults.degrees)
  | .bounce => .bounce (config.distance.getD Defaults.distance).abs

def translateFunction : Axis → String
  | .x => "translateX"
  | .y => "translateY"

def translate (axis : Axis) (offset : Binary64) : String :=
  translateFunction axis ++ "(" ++ Measure.length offset ++ ")"

def transform (offset : Binary64) (value : String) : Keyframe := ⟨offset, [("transform", value)]⟩

/-- The steps of a motion in ascending order. -/
def keyframes : Motion → List Keyframe
  | fade opacity =>
    [⟨.zero, [("opacity", Measure.number opacity.start)]⟩,
     ⟨.ofNat 1, [("opacity", Measure.number opacity.stop)]⟩]
  | slide axis distance direction =>
    [transform .zero (translate axis (direction.signed distance)),
     transform (.ofNat 1) (translate axis .zero)]
  | scale start =>
    [transform .zero ("scale(" ++ Measure.number start ++ ")"),
     transform (.ofNat 1) "scale(1)"]
  | rotate degrees =>
    [transform .zero ("rotate(" ++ Measure.degrees degrees.start ++ ")"),
     transform (.ofNat 1) ("rotate(" ++ Measure.degrees degrees.stop ++ ")")]
  | bounce height =>
    bounceSteps.map fun (offset, lift) =>
      transform offset (translate .y (height.neg.mul lift))

end Motion

namespace Animation

/-- The animation of a config. An unknown kind is reported before any field is looked at. -/
def ofConfig (config : Config) : Except AnimationError Animation :=
  match config.kind with
  | .unsupported name => .error (.unsupportedKind name)
  | .family f =>
    match config.validate with
    | .error cause => .error (.invalidConfig cause)
    | .ok () =>
      .ok ⟨f, ⟨config.duration, config.delay, config.easing⟩, .ofConfig config f⟩

def keyframes (animation : Animation) : List Keyframe := animation.motion.keyframes

end Animation
end AnimationKit
