import AnimationKit.Easing

/-!
Animation configs: one animation family, its timing and the family's optional parameters.
-/
namespace AnimationKit

/-- The animation families. -/
inductive Family where
  | fade
  | slide
  | scale
  | rotate
  | bounce
deriving DecidableEq

namespace Family

/-- Every family, in the order in which they are offered. -/
def all : List Family := [fade, slide, scale, rotate, bounce]

def name : Family → String
  | fade => "fade"
  | slide => "slide"
  | scale => "scale"
  | rotate => "rotate"
  | bounce => "bounce"

end Family

/-- What a config asks for: a family, or a name that no family has. -/
inductive Kind where
  | family (family : Family)
  | unsupported (name : String)
deriving DecidableEq

namespace Kind

def name : Kind → String
  | family f => f.name
  | unsupported name => name

def ofName (name : String) : Kind :=
  match Family.all.find? fun f => f.name == name with
  | some f => family f
  | none => unsupported name

def isSupported : Kind → Bool
  | family _ => true
  | unsupported _ => false

end Kind

/-- The axis of a slide. -/
inductive Axis where
  | x
  | y
deriving DecidableEq

def Axis.name : Axis → String
  | x => "x"
  | y => "y"

/-- A start and an end value: opacity bounds or rotation angles. -/
structure Span where
  start : Binary64
  stop : Binary64
deriving DecidableEq

/-- Numeric equality of both ends. -/
def Span.equals (a b : Span) : Bool := a.start.equals b.start && a.stop.equals b.stop

/-- An animation config. Fields that its family does not read are kept and have no effect. -/
structure Config where
  kind : Kind
  /-- In seconds, more than 0. -/
  duration : Binary64
  /-- In seconds, at least 0. -/
  delay : Binary64 := .zero
  easing : Easing := .default
  /-- For `fade`. -/
  opacity : Option Span := none
  /-- For `slide` and `bounce`, in pixels; a slide by a negative distance enters from the left or
  the top. -/
  distance : Option Binary64 := none
  /-- For `slide`. -/
  axis : Option Axis := none
  /-- For `scale`: the factor at the start. -/
  scale : Option Binary64 := none
  /-- For `rotate`. -/
  degrees : Option Span := none
deriving DecidableEq

namespace Config

/-- A fade of half a second. -/
def default : Config := { kind := .family .fade, duration := .ofQuotient 1 2 }

/-- Both values are absent, or both are there and agree. -/
def optionEquals {α : Type} (equal : α → α → Bool) : Option α → Option α → Bool
  | none, none => true
  | some a, some b => equal a b
  | _, _ => false

/-- Both configs hold the same values, numbers compared as numbers. -/
def equals (a b : Config) : Bool :=
  a.kind == b.kind && a.duration.equals b.duration && a.delay.equals b.delay &&
    a.easing.equals b.easing && optionEquals Span.equals a.opacity b.opacity &&
    optionEquals Binary64.equals a.distance b.distance &&
    a.axis == b.axis &&
    optionEquals Binary64.equals a.scale b.scale &&
    optionEquals Span.equals a.degrees b.degrees

end Config
end AnimationKit
