import AnimationKit.Config.Error
import AnimationKit.Measure
import AnimationKit.Text.Blank
import AnimationKit.Text.Split

/-!
Timing curves and their text.
-/
namespace AnimationKit

/-- A curve with a name of its own. -/
inductive NamedCurve where
  | linear
  | ease
  | easeIn
  | easeOut
  | easeInOut
  | stepStart
  | stepEnd
deriving DecidableEq

namespace NamedCurve

def all : List NamedCurve := [linear, ease, easeIn, easeOut, easeInOut, stepStart, stepEnd]

def name : NamedCurve → String
  | linear => "linear"
  | ease => "ease"
  | easeIn => "ease-in"
  | easeOut => "ease-out"
  | easeInOut => "ease-in-out"
  | stepStart => "step-start"
  | stepEnd => "step-end"

def ofName? (name : List Char) : Option NamedCurve :=
  all.find? fun curve => curve.name.toList == name

end NamedCurve

/-- A timing curve. -/
inductive Easing where
  | named (curve : NamedCurve)
  | cubicBezier (x₁ y₁ x₂ y₂ : Binary64)
deriving DecidableEq

namespace Easing

def default : Easing := .named .ease

def bezierOpening : String := "cubic-bezier("

/-- The text of a curve; control points are written with at most four decimals. -/
def text : Easing → String
  | .named curve => curve.name
  | .cubicBezier x₁ y₁ x₂ y₂ =>
    bezierOpening ++ Measure.number x₁ ++ ", " ++ Measure.number y₁ ++ ", " ++
      Measure.number x₂ ++ ", " ++ Measure.number y₂ ++ ")"

/-- Both curves are the same one, point by point as numbers. -/
def equals : Easing → Easing → Bool
  | .named a, .named b => a == b
  | .cubicBezier a b c d, .cubicBezier a' b' c' d' =>
    a.equals a' && b.equals b' && c.equals c' && d.equals d'
  | _, _ => false

/-- Between 0 and 1, both included. -/
def inUnit (value : Binary64) : Bool := Binary64.zero.le value && value.le (.ofNat 1)

/-- Reads the control points between the parentheses. -/
def ofPoints? (chars : List Char) : Option Easing :=
  match (Text.splitOn ',' chars).mapM fun piece => Binary64.read? (Text.trim piece) with
  | some [x₁, y₁, x₂, y₂] =>
    if inUnit x₁ && inUnit x₂ && y₁.isFinite && y₂.isFinite then some (.cubicBezier x₁ y₁ x₂ y₂)
    else none
  | _ => none

/-- Reads a curve from text that has no blanks at its ends. -/
def ofTrimmed? (chars : List Char) : Option Easing :=
  match NamedCurve.ofName? chars with
  | some curve => some (.named curve)
  | none => (Text.between? bezierOpening.toList [')'] chars).bind ofPoints?

/-- Reads a curve. The error carries the text as it was given. -/
def ofText (text : String) : Except ConfigError Easing :=
  match ofTrimmed? (Text.trim text.toList) with
  | some easing => .ok easing
  | none => .error (.invalidEasing text)

end Easing
end AnimationKit
