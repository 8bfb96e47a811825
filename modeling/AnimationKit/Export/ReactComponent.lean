import AnimationKit.Animation
import AnimationKit.Export.Format

/-!
The React component that reproduces an animation: its parameters, its keyframes, and an effect that
plays them on the element around the component's children.
-/
namespace AnimationKit

/-- A parameter of the animation as the component states it. -/
inductive Parameter where
  | number (name value : String)
  | word (name value : String)
  | span (name start stop : String)
deriving DecidableEq

def Parameter.render : Parameter → String
  | number name value => name ++ ": " ++ value ++ ","
  | word name value => name ++ ": \"" ++ value ++ "\","
  | span name start stop =>
    name ++ ": \x7b start: " ++ start ++ ", end: " ++ stop ++ " \x7d,"

/-- The parts of a component that depend on the animation. -/
structure ReactComponent where
  name : String
  parameters : List Parameter
  frames : List (String × List (String × String))
deriving DecidableEq

namespace Motion

def spanParameter (name : String) (span : Span) : Parameter :=
  .span name (Measure.number span.start) (Measure.number span.stop)

/-- The parameters of the family; a slide states its distance with its sign. -/
def parameters : Motion → List Parameter
  | fade opacity => [spanParameter "opacity" opacity]
  | slide axis distance direction =>
    [.word "axis" axis.name, .number "distance" (Measure.number (direction.signed distance))]
  | scale start => [.number "scale" (Measure.number start)]
  | rotate degrees => [spanParameter "degrees" degrees]
  | bounce height => [.number "distance" (Measure.number height)]

end Motion

namespace ReactComponent

/-- A name in upper camel case: a capital letter, then letters, digits and `_`, all ASCII. -/
def isName (name : String) : Bool :=
  match name.toList with
  | [] => false
  | first :: rest => first.isUpper && rest.all fun c => c.isAlphanum || c == '_'

def timingParameters (animation : Animation) : List Parameter :=
  [.word "type" animation.family.name,
   .number "duration" (Measure.number animation.timing.duration),
   .number "delay" (Measure.number animation.timing.delay),
   .word "easing" animation.timing.easing.text]

def ofAnimation (name : String) (animation : Animation) : ReactComponent :=
  ⟨name, timingParameters animation ++ animation.motion.parameters,
    animation.keyframes.map fun frame => (Measure.number frame.offset, frame.declarations)⟩

/-- A value in source text: a number as it is, anything else between quotes. -/
def valueText (value : String) : String :=
  if (Literal.read? value.toList).isSome then value else "\"" ++ value ++ "\""

def frameText (frame : String × List (String × String)) : String :=
  let fields := frame.2.map fun (property, value) => property ++ ": " ++ valueText value
  "  \x7b " ++ ", ".intercalate (("offset: " ++ frame.1) :: fields) ++ " \x7d,\n"

/-- What the component does once it is on the page; the same for every animation. -/
def bodyLines : List String :=
  ["  const ref = useRef(null);",
   "",
   "  useEffect(() => \x7b",
   "    const element = ref.current;",
   "    if (!element) \x7b",
   "      return undefined;",
   "    \x7d",
   "    const running = element.animate(keyframes, \x7b",
   "      duration: animation.duration * 1000,",
   "      delay: animation.delay * 1000,",
   "      easing: animation.easing,",
   "      fill: \"both\",",
   "    \x7d);",
   "    return () => running.cancel();",
   "  \x7d, []);",
   "",
   "  return <div ref=\x7bref\x7d>\x7bchildren\x7d</div>;",
   "\x7d",
   ""]

def body : String := String.join (bodyLines.map fun line => line ++ "\n")

/-- The source text of a component. -/
def render (component : ReactComponent) : String :=
  "import \x7b useEffect, useRef \x7d from \"react\";\n\n" ++
  "const animation = \x7b\n" ++
  String.join (component.parameters.map fun p => "  " ++ p.render ++ "\n") ++
  "\x7d;\n\n" ++
  "const keyframes = [\n" ++
  String.join (component.frames.map frameText) ++
  "];\n\n" ++
  "export function " ++ component.name ++ "(\x7b children \x7d) \x7b\n" ++
  body ++
  "export default " ++ component.name ++ ";\n"

end ReactComponent
end AnimationKit
