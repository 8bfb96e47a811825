/-!
Numbers in double precision. A datum other than NaN is a sign and a rank: the rank counts the
non-negative doubles in order, from 0 for zero up to `topRank` for infinity. Every magnitude is a
whole number of units of 2^-1074, so comparison and rounding need natural numbers only.
-/
namespace AnimationKit

/-- How many ranks share an exponent: 2^52. -/
def binade : Nat := Nat.pow 2 52

/-- The rank of infinity. -/
def topRank : Nat := 2047 * binade

/-- A double. Two data are equal as values of this type when they have the same bits, with a
single NaN; `Binary64.equals` is the numeric comparison. -/
inductive Binary64 where
  | nan
  | signed (negative : Bool) (rank : Nat) (rank_le : rank ≤ topRank)
deriving DecidableEq

namespace Binary64

/-- The significand of the double of this rank, 53 bits wide unless the double is subnormal. -/
def significand (rank : Nat) : Nat :=
  if rank < binade then rank else binade + rank % binade

/-- The magnitude of the double of this rank, in units of 2^-1074. -/
def units (rank : Nat) : Nat :=
  significand rank * Nat.pow 2 (rank / binade - 1)

/-- How many units make one. -/
def one : Nat := Nat.pow 2 1074

def zero : Binary64 := .signed false 0 (Nat.zero_le _)

def infinity (negative : Bool) : Binary64 := .signed negative topRank (Nat.le_refl _)

def isFinite : Binary64 → Bool
  | .nan => false
  | .signed _ rank _ => decide (rank < topRank)

def neg : Binary64 → Binary64
  | .nan => .nan
  | .signed negative rank h => .signed (!negative) rank h

def abs : Binary64 → Binary64
  | .nan => .nan
  | .signed _ rank h => .signed false rank h

/-- The place of a datum in the order of the numbers; both zeros stand at 0 and NaN nowhere. -/
def place? : Binary64 → Option Int
  | .nan => none
  | .signed negative rank _ => some (if negative then -(rank : Int) else rank)

/-- Numeric equality: NaN differs from itself and the two zeros are equal. -/
def equals (x y : Binary64) : Bool :=
  match x.place?, y.place? with
  | some a, some b => decide (a = b)
  | _, _ => false

/-- Numeric order; no comparison with NaN holds. -/
def lt (x y : Binary64) : Bool :=
  match x.place?, y.place? with
  | some a, some b => decide (a < b)
  | _, _ => false

/-- Numeric order with equality; no comparison with NaN holds. -/
def le (x y : Binary64) : Bool :=
  match x.place?, y.place? with
  | some a, some b => decide (a ≤ b)
  | _, _ => false

end Binary64
end AnimationKit
