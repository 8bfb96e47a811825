import AnimationKit.Binary64.Arithmetic
import AnimationKit.Binary64.Shortest

/-!
Numbers and units as every output writes them. Values are rounded to four decimals and a zero has
no sign, so that one config reads the same wherever it is shown.
-/
namespace AnimationKit.Measure

/-- From here on a double has no digits behind the fourth decimal worth rounding. -/
def roundingLimit : Binary64 := .ofNat (Nat.pow 10 15)

def tenThousand : Binary64 := .ofNat 10000

/-- The value with at most four decimals. -/
def rounded (value : Binary64) : Binary64 :=
  if value.abs.lt roundingLimit then ((value.mul tenThousand).round).div tenThousand else value

/-- A number in positional notation; `0` for every zero, and for what is not finite. -/
def number (value : Binary64) : String :=
  if (rounded value).equals .zero || !(rounded value).isFinite then "0"
  else (rounded value).plain

def seconds (value : Binary64) : String := number value ++ "s"

def degrees (value : Binary64) : String := number value ++ "deg"

def pixels (value : Binary64) : String := number value ++ "px"

/-- A length inside a transform; zero needs no unit. -/
def length (value : Binary64) : String :=
  if number value = "0" then "0" else pixels value

/-- A fraction of the whole as a percentage. -/
def percent (fraction : Binary64) : String := number (fraction.mul (.ofNat 100)) ++ "%"

end AnimationKit.Measure
