import AnimationKit.Json.Value

/-!
Values that a JavaScript host hands over, as far as a studio looks at them.
-/
namespace AnimationKit

inductive HostValue where
  | undefined
  | null
  | function
  | bool (value : Bool)
  | number (value : Binary64)
  | text (value : String)
  /-- An error object. -/
  | error (message : String)
  /-- An object with the JSON text that the host gives for it. -/
  | object (json : String)
  /-- An object for which the host fails to give JSON text, throwing this string. -/
  | unserializable (thrown : String)

namespace HostValue

def isMissing : HostValue → Bool
  | undefined | null => true
  | _ => false

/-- Numbers are positional from 1e-6 up to 1e21. -/
def numberLayout : Decimal.Layout := ⟨some (-6, 21), ""⟩

/-- A number as the host writes it; the negative zero has no sign there. -/
def numberText : Binary64 → String
  | .nan => "NaN"
  | .signed negative rank _ =>
    if rank = topRank then if negative then "-Infinity" else "Infinity"
    else (Binary64.shortest .even (negative && rank != 0) rank).text numberLayout

/-- The JSON text of a value, if it has one, or what the host throws instead. -/
def stringify : HostValue → Except HostValue (Option String)
  | undefined | function => .ok none
  | null => .ok (some "null")
  | bool value => .ok (some (if value then "true" else "false"))
  | number value => .ok (some (if value.isFinite then numberText value else "null"))
  | text value => .ok (some (Json.quote value))
  | error _ => .ok (some "\x7b\x7d")
  | object json => .ok (some json)
  | unserializable thrown => .error (.text thrown)

/-- How a value is shown to a developer. -/
def inspect (value : HostValue) : String :=
  "JsValue(" ++ (match value with
    | undefined => "undefined"
    | null => "null"
    | function => "Function"
    | bool value => if value then "true" else "false"
    | number value => numberText value
    | text value => "\"" ++ value ++ "\""
    | error message => "Error: " ++ message
    | object json => "Object(" ++ json ++ ")"
    | unserializable _ => "Object") ++ ")"

/-- The message of a value that was thrown. -/
def failureMessage : HostValue → String
  | text value => value
  | error message => message
  | other => other.inspect

end HostValue
end AnimationKit
