import AnimationKit.Documents.Config

/-!
Sample configs: valid ones for every family, and configs that have no animation.
-/
namespace AnimationKit

/-- A sample document: its members, each with the text of its value. -/
structure Sample where
  name : String
  members : List (String × String)

namespace Sample

/-- The text of a sample, one member to a line. -/
def text (sample : Sample) : String :=
  let lines := sample.members.map fun (key, value) => "  " ++ Json.quote key ++ ": " ++ value
  "\x7b\n" ++ ",\n".intercalate lines ++ "\n\x7d\n"

def bounds (start stop : String) : String :=
  "\x7b \"start\": " ++ start ++ ", \"end\": " ++ stop ++ " \x7d"

/-- The members that every sample has. -/
def timed (kind duration delay easing : String) : List (String × String) :=
  [("type", Json.quote kind), ("duration", duration), ("delay", delay),
   ("easing", Json.quote easing)]

def onX : String × String := ("axis", Json.quote "x")

def onY : String × String := ("axis", Json.quote "y")

/-- Samples that have an animation, by name in ascending order. -/
def valid : List Sample :=
  [⟨"bounce", timed "bounce" "0.6" "0" "ease" ++ [("distance", "40")]⟩,
   ⟨"fade-default", timed "fade" "1" "0" "ease"⟩,
   ⟨"fade-explicit", timed "fade" "1" "0" "ease" ++ [("opacity", bounds "0" "1")]⟩,
   ⟨"fade-with-foreign-fields",
    timed "fade" "0.8" "0.1" "ease-out" ++ [("distance", "75"), onY, ("scale", "3")]⟩,
   ⟨"fade-with-invalid-foreign-scale",
    timed "fade" "1" "0" "ease" ++ [("scale", "0"), ("degrees", bounds "0" "90")]⟩,
   ⟨"rotate-half-turn", timed "rotate" "0.3" "0" "linear" ++ [("degrees", "180")]⟩,
   ⟨"rotate-range",
    timed "rotate" "1.2" "0.5" "ease-in-out" ++ [("degrees", bounds "-45" "45")]⟩,
   ⟨"scale-pop", timed "scale" "0.25" "0" "ease-in" ++ [("scale", "0.8")]⟩,
   ⟨"slide-left", timed "slide" "0.5" "0" "ease-out" ++ [("distance", "-50"), onX]⟩,
   ⟨"slide-right", timed "slide" "0.5" "0" "ease-out" ++ [("distance", "50"), onX]⟩,
   ⟨"slide-up-default-distance",
    timed "slide" "0.4" "0.2" "cubic-bezier(0.4, 0, 0.2, 1)" ++ [onY]⟩,
   ⟨"slide-with-bad-foreign-opacity",
    timed "slide" "0.5" "0" "ease-out" ++
      [("distance", "-50"), onX, ("opacity", bounds "0" "2")]⟩]

/-- Samples without an animation, by name in ascending order. -/
def invalid : List Sample :=
  [⟨"unknown-type", timed "spin" "1" "0" "linear"⟩,
   ⟨"zero-duration", timed "fade" "0" "0" "ease"⟩]

/-- The groups of samples. -/
inductive Group where
  | configs
  | invalid

def Group.samples : Group → List Sample
  | configs => valid
  | invalid => Sample.invalid

def Group.describe : Group → String
  | configs => "config"
  | invalid => "invalid config"

/-- The sample of a name, or the message that there is none. -/
def find (group : Group) (name : String) : Except String Sample :=
  match group.samples.find? fun sample => sample.name == name with
  | some sample => .ok sample
  | none => .error ("unknown " ++ group.describe ++ " fixture '" ++ name ++ "'")

end Sample
end AnimationKit
