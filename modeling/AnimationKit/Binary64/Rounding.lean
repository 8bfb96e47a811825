import AnimationKit.Binary64.Basic

/-!
Rounding to the nearest double, a tie going to the even neighbour. Quotients of natural numbers are
rounded once, from their exact value.
-/
namespace AnimationKit.Binary64

/-- The natural number nearest to `num / den`; of two equally near ones, the even one. -/
def nearestNat (num den : Nat) : Nat :=
  let quotient := num / den
  let remainder := num % den
  if 2 * remainder < den then quotient
  else if den < 2 * remainder then quotient + 1
  else quotient + quotient % 2

/-- The rank of the double nearest to `num / den` units. A quotient with `52 + s` bits after its
leading one is measured in steps of `2 ^ s` units, and one binade of ranks separates such a scale
from the next, so a carry out of the significand lands on the right rank by itself. -/
def nearestRank (num den : Nat) : Nat :=
  let scale := Nat.log2 (num / den) - 52
  min (scale * binade + nearestNat num (den * Nat.pow 2 scale)) topRank

/-- The double nearest to `num / den` units, with the given sign. -/
def ofUnits (negative : Bool) (num den : Nat) : Binary64 :=
  .signed negative (nearestRank num den) (Nat.min_le_right _ _)

/-- The double nearest to `num / den`. -/
def ofQuotient (num den : Nat) : Binary64 :=
  ofUnits false (num * one) den

def ofNat (n : Nat) : Binary64 :=
  ofQuotient n 1

def ofInt (n : Int) : Binary64 :=
  ofUnits (decide (n < 0)) (n.natAbs * one) 1

end AnimationKit.Binary64
