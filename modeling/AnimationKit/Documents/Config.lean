import AnimationKit.Config.Validation
import AnimationKit.Json.Typed

/-!
Configs as JSON documents.
-/
namespace AnimationKit

/-- The value of a document, or the error that a malformed document is reported as. -/
def readDocument {α : Type} (reader : Json.Reader α) (text : String) : Except ConfigError α :=
  match reader.run text.toList with
  | .ok value => .ok value
  | .error failure => .error (.malformed (failure.reason text.toList))

open Json

/-- How deep arrays and objects may be nested in each other. -/
def maxDepth : Nat := 127

def Axis.named : List (String × Axis) := [("x", .x), ("y", .y)]

namespace Span

def shape : RecordShape Span :=
  ⟨.record "Range",
    [⟨"start", true, do let x ← Reader.double; pure fun span => { span with start := x }⟩,
     ⟨"end", true, do let x ← Reader.double; pure fun span => { span with stop := x }⟩]⟩

def read : Reader Span := shape.read ⟨.zero, .zero⟩

def toJson (span : Span) : Value :=
  .object [("start", .double span.start), ("end", .double span.stop)]

end Span

/-- The value of a member that an object has exactly once. -/
def uniqueMember? (members : List (String × Value)) (key : String) : Option Value :=
  match members.filter fun member => member.1 == key with
  | [member] => some member.2
  | _ => none

/-- The angles that a value stands for: a number turns from zero to it, a pair or an object names
both ends. -/
def anglesOf? : Value → Option Span
  | .number n => some ⟨.zero, n.toBinary64⟩
  | .array [.number a, .number b] => some ⟨a.toBinary64, b.toBinary64⟩
  | .object members =>
    match uniqueMember? members "start", uniqueMember? members "end" with
    | some (.number a), some (.number b) => some ⟨a.toBinary64, b.toBinary64⟩
    | _, _ => none
  | _ => none

/-- Reads angles inside a config, whose own brackets are one level of nesting. -/
def readAngles : Reader Span := do
  match anglesOf? (← Reader.value (maxDepth - 1)) with
  | some span => pure span
  | none => Reader.failUnplaced (.noAlternative "RawDegrees")

namespace Easing

def read : Reader Easing := do
  match ofText (← Reader.text) with
  | .ok easing => pure easing
  | .error error => Reader.failUnplaced (.rejected error.message)

end Easing

namespace Config

/-- The fields of a config in their order; the timing is required. -/
def shape : RecordShape Config :=
  ⟨.record "AnimationConfig",
    [⟨"type", true, do
        let name ← Reader.text
        pure fun config => { config with kind := .ofName name }⟩,
     ⟨"duration", true, do
        let x ← Reader.double
        pure fun config => { config with duration := x }⟩,
     ⟨"delay", true, do
        let x ← Reader.double
        pure fun config => { config with delay := x }⟩,
     ⟨"easing", true, do
        let easing ← Easing.read
        pure fun config => { config with easing := easing }⟩,
     ⟨"opacity", false, do
        let span ← Reader.optional Span.read
        pure fun config => { config with opacity := span }⟩,
     ⟨"distance", false, do
        let x ← Reader.optional Reader.double
        pure fun config => { config with distance := x }⟩,
     ⟨"axis", false, do
        let axis ← Reader.optional (Reader.name Axis.named)
        pure fun config => { config with axis := axis }⟩,
     ⟨"scale", false, do
        let x ← Reader.optional Reader.double
        pure fun config => { config with scale := x }⟩,
     ⟨"degrees", false, do
        let span ← Reader.optional readAngles
        pure fun config => { config with degrees := span }⟩]⟩

/-- Reads a config that need not satisfy the constraints. -/
def ofJson (text : String) : Except ConfigError Config := readDocument (shape.read default) text

/-- Reads a config and checks it. A kind that is not supported is accepted. -/
def load (text : String) : Except ConfigError Config := do
  let config ← ofJson text
  config.validate
  pure config

def optionalMember {α : Type} (name : String) (toJson : α → Value) (value : Option α) :
    List (String × Value) :=
  value.toList.map fun a => (name, toJson a)

/-- The document that a config is saved as; absent fields are left out. -/
def toJson (config : Config) : Value :=
  .object <|
    [("type", .text config.kind.name), ("duration", .double config.duration),
     ("delay", .double config.delay), ("easing", .text config.easing.text)] ++
    optionalMember "opacity" Span.toJson config.opacity ++
    optionalMember "distance" Value.double config.distance ++
    optionalMember "axis" (fun axis => .text axis.name) config.axis ++
    optionalMember "scale" Value.double config.scale ++
    optionalMember "degrees" Span.toJson config.degrees

end Config
end AnimationKit
