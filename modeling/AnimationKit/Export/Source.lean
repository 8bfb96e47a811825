import AnimationKit.Export.CssSheet
import AnimationKit.Export.ReactComponent
import AnimationKit.Log
import AnimationKit.Settings

/-!
The source text that a config is exported as.
-/
namespace AnimationKit

/-- Source text, and what is to be reported about it. -/
structure Source where
  text : String
  notes : List Note

namespace Animation

/-- The name wanted for a component if it can be one, else the family's. -/
def componentName (wanted : Option String) (animation : Animation) : String × List Note :=
  let familyName := (Kind.family animation.family).componentName
  match wanted with
  | none => (familyName, [])
  | some name =>
    if ReactComponent.isName name then (name, []) else (familyName, [.badComponentName name])

def reactSource (wanted : Option String) (animation : Animation) : Source :=
  let (name, notes) := animation.componentName wanted
  ⟨(ReactComponent.ofAnimation name animation).render, notes⟩

def source (wanted : Option String) (animation : Animation) : ExportFormat → Source
  | .react => animation.reactSource wanted
  | .css => ⟨animation.cssText, []⟩

end Animation

namespace Config

/-- The component for a config, named as wanted if that is possible. -/
def reactSource (config : Config) (wanted : Option String) : Except AnimationError Source :=
  (Animation.ofConfig config).map (·.reactSource wanted)

def cssSource (config : Config) : Except AnimationError Source :=
  (Animation.ofConfig config).map fun animation => ⟨animation.cssText, []⟩

/-- The export of a config in a format, under a host's settings. -/
def source (config : Config) (format : ExportFormat) (settings : Settings) :
    Except AnimationError Source :=
  (Animation.ofConfig config).map (·.source settings.componentName format)

end Config
end AnimationKit
