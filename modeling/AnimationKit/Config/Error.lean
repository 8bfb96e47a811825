import AnimationKit.Binary64.Shortest

/-!
Why a config, a piece of its text or the name of an export format is not accepted.
-/
namespace AnimationKit

inductive ConfigError where
  | nonPositiveDuration (duration : Binary64)
  | negativeDelay (delay : Binary64)
  | opacityOutOfRange (start stop : Binary64)
  | nonPositiveScale (scale : Binary64)
  | nonFinite (field : String)
  | invalidEasing (text : String)
  | unknownFormat (name : String)
  /-- The text is no JSON document of the wanted shape. -/
  | malformed (reason : String)
deriving DecidableEq

def ConfigError.message : ConfigError → String
  | nonPositiveDuration d => "Duration must be > 0 seconds, got " ++ d.plain
  | negativeDelay d => "Delay must be >= 0 seconds, got " ++ d.plain
  | opacityOutOfRange a b =>
    "Opacity bounds must lie in [0, 1], got " ++ a.plain ++ " -> " ++ b.plain
  | nonPositiveScale s => "Scale factor must be > 0, got " ++ s.plain
  | nonFinite field => "Field '" ++ field ++ "' must be a finite number"
  | invalidEasing text => "Invalid easing: '" ++ text ++ "'"
  | unknownFormat name => "Unknown export backend: '" ++ name ++ "'"
  | malformed reason => "Config parse error: " ++ reason

/-- Why a config has no animation. -/
inductive AnimationError where
  | unsupportedKind (name : String)
  | invalidConfig (cause : ConfigError)
deriving DecidableEq

namespace AnimationError

def message : AnimationError → String
  | unsupportedKind name => "Unsupported animation type: '" ++ name ++ "'"
  | invalidConfig cause => cause.message

/-- The class of an error. -/
def category : AnimationError → String
  | unsupportedKind _ => "unsupported"
  | invalidConfig _ => "validation"

end AnimationError
end AnimationKit
