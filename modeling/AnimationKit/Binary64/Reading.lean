import AnimationKit.Binary64.Rounding
import AnimationKit.Decimal.Literal

/-!
The double nearest to a decimal, and the double that a number literal denotes.
-/
namespace AnimationKit.Binary64

/-- The rank of the double nearest to `coefficient * 10 ^ exponent`. -/
def decimalRank (coefficient : Nat) (exponent : Int) : Nat :=
  nearestRank (coefficient * Nat.pow 10 exponent.toNat * one) (Nat.pow 10 (-exponent).toNat)

/-- The double nearest to a decimal. A magnitude of `10 ^ 310` or more is infinite and one below
`10 ^ -330` is zero; both are seen from the number of digits, so that no large power is formed. -/
def ofDecimal (d : Decimal) : Binary64 :=
  if d.coefficient = 0 ∨ d.pointPlace < -330 then .signed d.negative 0 (Nat.zero_le _)
  else if 310 < d.pointPlace then infinity d.negative
  else .signed d.negative (decimalRank d.coefficient d.exponent) (Nat.min_le_right _ _)

def ofLiteral : Literal → Binary64
  | .nan => .nan
  | .infinite negative => infinity negative
  | .decimal d => ofDecimal d

/-- The double that a number literal denotes. -/
def read? (text : List Char) : Option Binary64 :=
  (Literal.read? text).map ofLiteral

end AnimationKit.Binary64
