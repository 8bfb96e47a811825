import AnimationKit.Documents.Config

/-!
Errors as JSON documents: an object with the name of the error as its key.
-/
namespace AnimationKit

open Json

namespace ConfigError

def variantName : ConfigError → String
  | nonPositiveDuration _ => "NonPositiveDuration"
  | negativeDelay _ => "NegativeDelay"
  | opacityOutOfRange .. => "OpacityOutOfRange"
  | nonPositiveScale _ => "NonPositiveScale"
  | nonFinite _ => "NonFinite"
  | invalidEasing _ => "InvalidEasing"
  | unknownFormat _ => "UnknownBackend"
  | malformed _ => "Parse"

/-- What an error carries, by name. -/
def payload : ConfigError → List (String × Value)
  | nonPositiveDuration d => [("duration", .double d)]
  | negativeDelay d => [("delay", .double d)]
  | opacityOutOfRange a b => [("start", .double a), ("end", .double b)]
  | nonPositiveScale s => [("scale", .double s)]
  | nonFinite field => [("field", .text field)]
  | invalidEasing text => [("value", .text text)]
  | unknownFormat name => [("name", .text name)]
  | malformed reason => [("reason", .text reason)]

def toJson (error : ConfigError) : Value :=
  .object [(error.variantName, .object error.payload)]

/-- The content of a variant with one field. -/
def single {α : Type} (variant field : String) (initial : α) (read : Reader α)
    (build : α → ConfigError) : String × Reader.Variant ConfigError :=
  let shape : RecordShape α :=
    ⟨.variantRecord ("ConfigError::" ++ variant),
      [⟨field, true, do let value ← read; pure fun _ => value⟩]⟩
  (variant, ⟨.recordVariant, build <$> shape.read initial⟩)

def opacityVariant : String × Reader.Variant ConfigError :=
  let shape : RecordShape Span :=
    { Span.shape with wanted := .variantRecord "ConfigError::OpacityOutOfRange" }
  ("OpacityOutOfRange", ⟨.recordVariant,
    (fun span => opacityOutOfRange span.start span.stop) <$> shape.read ⟨.zero, .zero⟩⟩)

def variants : List (String × Reader.Variant ConfigError) :=
  [single "NonPositiveDuration" "duration" .zero Reader.double nonPositiveDuration,
   single "NegativeDelay" "delay" .zero Reader.double negativeDelay,
   opacityVariant,
   single "NonPositiveScale" "scale" .zero Reader.double nonPositiveScale,
   single "NonFinite" "field" "" Reader.text nonFinite,
   single "InvalidEasing" "value" "" Reader.text invalidEasing,
   single "UnknownBackend" "name" "" Reader.text unknownFormat,
   single "Parse" "reason" "" Reader.text malformed]

def read : Reader ConfigError := Reader.variant variants

def ofJson (text : String) : Except ConfigError ConfigError := readDocument read text

end ConfigError

namespace AnimationError

def variantName : AnimationError → String
  | unsupportedKind _ => "UnsupportedType"
  | invalidConfig _ => "InvalidConfig"

def toJson (error : AnimationError) : Value :=
  .object [(error.variantName, match error with
    | unsupportedKind name => .object [("kind", .text name)]
    | invalidConfig cause => cause.toJson)]

def kindShape : RecordShape String :=
  ⟨.variantRecord "EngineError::UnsupportedType",
    [⟨"kind", true, do let name ← Reader.text; pure fun _ => name⟩]⟩

def variants : List (String × Reader.Variant AnimationError) :=
  [("UnsupportedType", ⟨.recordVariant, unsupportedKind <$> kindShape.read ""⟩),
   ("InvalidConfig", ⟨.valueVariant, invalidConfig <$> ConfigError.read⟩)]

def ofJson (text : String) : Except ConfigError AnimationError :=
  readDocument (Reader.variant variants) text

end AnimationError
end AnimationKit
