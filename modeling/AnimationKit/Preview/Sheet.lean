import AnimationKit.Css
import AnimationKit.Preview.Style

/-!
The style sheet that previews rely on: one animation per class token. It refers to the custom
properties of `Preview.properties`, with the defaults of `Animation.ofConfig` as fallbacks.
-/
namespace AnimationKit.Preview

def reference (family : Family) (parameter fallback : String) : Css.Value :=
  .reference (propertyName family.name parameter) fallback

/-- The keyframes of a token and the rule that runs them with the family's timing. -/
def block (family : Family) (token : String) (steps : List Css.Step) : Css.Block :=
  ⟨token, steps,
    ⟨token, token, reference family "duration" "0.5s",
      reference family "easing" Easing.default.text, reference family "delay" "0s"⟩⟩

def step (offset : Binary64) (property : String) (value : Css.Value) : Css.Step :=
  ⟨Measure.percent offset, [⟨property, value⟩]⟩

def fadeBlock : Css.Block :=
  block .fade "mf-fade"
    [step .zero "opacity"
      (reference .fade "opacity-start" (Measure.number Defaults.opacity.start)),
     step (.ofNat 1) "opacity"
      (reference .fade "opacity-end" (Measure.number Defaults.opacity.stop))]

def distanceReference (family : Family) : Css.Value :=
  reference family "distance" (Measure.pixels Defaults.distance)

/-- The factor that gives a distance the sign of a direction. -/
def signFactor : Direction → String
  | .negative => "-1"
  | .positive => "1"

def slideBlock (axis : Axis) (direction : Direction) : Css.Block :=
  block .slide (slideToken axis direction)
    [step .zero "transform" (.call (Motion.translateFunction axis)
      (.product (distanceReference .slide) (signFactor direction))),
     step (.ofNat 1) "transform" (.call (Motion.translateFunction axis) (.literal "0"))]

def scaleBlock : Css.Block :=
  block .scale "mf-scale"
    [step .zero "transform" (.call "scale"
      (reference .scale "start" (Measure.number Defaults.scale))),
     step (.ofNat 1) "transform" (.call "scale" (.literal "1"))]

def rotateBlock : Css.Block :=
  block .rotate "mf-rotate"
    [step .zero "transform" (.call "rotate"
      (reference .rotate "start" (Measure.degrees Defaults.degrees.start))),
     step (.ofNat 1) "transform" (.call "rotate"
      (reference .rotate "end" (Measure.degrees Defaults.degrees.stop)))]

/-- How far a bounce is lifted at one of its steps. -/
def liftValue (lift : Binary64) : Css.Value :=
  if lift.equals .zero then .literal "0"
  else .product (distanceReference .bounce) (Measure.number lift.neg)

def bounceBlock : Css.Block :=
  block .bounce "mf-bounce" (bounceSteps.map fun (offset, lift) =>
    step offset "transform" (.call (Motion.translateFunction .y) (liftValue lift)))

/-- The sheet that a host installs once. -/
def sheet : Css.Sheet :=
  [fadeBlock, slideBlock .x .negative, slideBlock .x .positive, slideBlock .y .negative,
   slideBlock .y .positive, scaleBlock, rotateBlock, bounceBlock]

def sheetText : String := sheet.render .compact

end AnimationKit.Preview
