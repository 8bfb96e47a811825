/-!
Decimal numbers and their text. A layout says when a decimal is written with an exponent and how a
whole number ends; the digits themselves are never changed by it.
-/
namespace AnimationKit

/-- The number `coefficient * 10 ^ exponent`, with a sign that zero keeps too. -/
structure Decimal where
  negative : Bool
  coefficient : Nat
  exponent : Int
deriving DecidableEq

namespace Decimal

/-- How decimals are laid out. A number whose first digit counts powers `10 ^ k` is positional for
`lowest ≤ k < limit`, and always if the layout has no such range. -/
structure Layout where
  positional : Option (Int × Int)
  wholeSuffix : String

def Layout.isPositional (layout : Layout) (power : Int) : Bool :=
  match layout.positional with
  | none => true
  | some (lowest, limit) => decide (lowest ≤ power ∧ power < limit)

def digits (d : Decimal) : List Char := Nat.toDigits 10 d.coefficient

/-- How many digits stand before the point in positional notation; not positive if the number
starts with `0.` -/
def pointPlace (d : Decimal) : Int := d.digits.length + d.exponent

/-- The digits of the magnitude around the point. -/
def positionalChars (wholeSuffix : String) (d : Decimal) : List Char :=
  if 0 ≤ d.exponent then
    d.digits ++ List.replicate d.exponent.toNat '0' ++ wholeSuffix.toList
  else if 0 < d.pointPlace then
    d.digits.take d.pointPlace.toNat ++ '.' :: d.digits.drop d.pointPlace.toNat
  else
    '0' :: '.' :: List.replicate (-d.pointPlace).toNat '0' ++ d.digits

/-- The digits of the magnitude with the point behind the first one, and the power of ten. -/
def scientificChars (d : Decimal) : List Char :=
  let power := d.pointPlace - 1
  let fraction := match d.digits.drop 1 with
    | [] => []
    | rest => '.' :: rest
  d.digits.take 1 ++ fraction ++ 'e' :: (if power < 0 then '-' else '+') ::
    Nat.toDigits 10 power.natAbs

def chars (layout : Layout) (d : Decimal) : List Char :=
  let magnitude :=
    if layout.isPositional (d.pointPlace - 1) then d.positionalChars layout.wholeSuffix
    else d.scientificChars
  if d.negative then '-' :: magnitude else magnitude

def text (layout : Layout) (d : Decimal) : String := String.ofList (d.chars layout)

end Decimal
end AnimationKit
