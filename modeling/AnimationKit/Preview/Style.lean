import AnimationKit.Animation

/-!
What a preview puts on an element: the class that selects an animation of the preview sheet, and
the custom properties from which that animation takes its parameters.
-/
namespace AnimationKit.Preview

def slideToken : Axis → Direction → String
  | .x, .negative => "mf-slide-from-left"
  | .x, .positive => "mf-slide-from-right"
  | .y, .negative => "mf-slide-from-top"
  | .y, .positive => "mf-slide-from-bottom"

/-- The class for a family, with the parameters of a config. -/
def familyToken (config : Config) : Family → String
  | .fade => "mf-fade"
  | .slide => slideToken (config.axis.getD Defaults.axis) (.ofDistance config.distance)
  | .scale => "mf-scale"
  | .rotate => "mf-rotate"
  | .bounce => "mf-bounce"

/-- The class for a config; an unsupported kind has none. -/
def token? (config : Config) : Option String :=
  match config.kind with
  | .family f => some (familyToken config f)
  | .unsupported _ => none

/-- The custom property for a parameter of a family. -/
def propertyName (family parameter : String) : String := "--mf-" ++ family ++ "-" ++ parameter

abbrev Property := String × String

/-- The timing properties of a family. -/
def timingProperties (config : Config) (family : Family) : List Property :=
  [(propertyName family.name "duration", Measure.seconds config.duration),
   (propertyName family.name "delay", Measure.seconds config.delay),
   (propertyName family.name "easing", config.easing.text)]

/-- The parameters that a config has for its family. A distance is written without its sign. -/
def familyProperties (config : Config) : Family → List Property
  | .fade =>
    match config.opacity with
    | some o =>
      [(propertyName "fade" "opacity-start", Measure.number o.start),
       (propertyName "fade" "opacity-end", Measure.number o.stop)]
    | none => []
  | .slide => distanceProperty .slide
  | .bounce => distanceProperty .bounce
  | .scale =>
    match config.scale with
    | some s => [(propertyName "scale" "start", Measure.number s)]
    | none => []
  | .rotate =>
    match config.degrees with
    | some d =>
      [(propertyName "rotate" "start", Measure.degrees d.start),
       (propertyName "rotate" "end", Measure.degrees d.stop)]
    | none => []
where
  distanceProperty (family : Family) : List Property :=
    match config.distance with
    | some d => [(propertyName family.name "distance", Measure.pixels d.abs)]
    | none => []

/-- Everything that a preview of a config sets, in the order in which it is set: the timing of every
family, then the parameters of the config's own. -/
def properties (config : Config) : List Property :=
  Family.all.flatMap (timingProperties config) ++
    match config.kind with
    | .family f => familyProperties config f
    | .unsupported _ => []

end AnimationKit.Preview
