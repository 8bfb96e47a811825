import AnimationKit.Animation
import AnimationKit.Css

/-!
The style sheet that reproduces an animation.
-/
namespace AnimationKit.Animation

def cssStep (frame : Keyframe) : Css.Step :=
  ⟨Measure.percent frame.offset,
    frame.declarations.map fun (property, value) => ⟨property, .literal value⟩⟩

/-- The class and the keyframes have the name of the family. -/
def cssBlock (animation : Animation) : Css.Block :=
  let name := animation.family.name
  ⟨name, animation.keyframes.map cssStep,
    ⟨name, name, .literal (Measure.seconds animation.timing.duration),
      .literal animation.timing.easing.text, .literal (Measure.seconds animation.timing.delay)⟩⟩

def cssText (animation : Animation) : String := Css.Sheet.render .expanded [animation.cssBlock]

end AnimationKit.Animation
