import AnimationKit.Binary64.Reading

/-!
The shortest decimal that reads back as a given double.
-/
namespace AnimationKit.Binary64

/-- Which way to go where a double lies exactly half way between two shortest decimals. -/
inductive Tie where
  | even
  | up

/-- Whether a tie between a coefficient and its successor goes to the coefficient. -/
def Tie.goesBelow (coefficient : Nat) : Tie → Bool
  | .even => coefficient % 2 == 0
  | .up => false

/-- The multiple of `10 ^ exponent` nearest to the double of this rank, among those that read back
as that double. Only the two neighbours of the double on this grid can do so if any can. -/
def nearestOnGrid? (tie : Tie) (rank : Nat) (exponent : Int) : Option Nat :=
  let num := units rank * Nat.pow 10 (-exponent).toNat
  let den := one * Nat.pow 10 exponent.toNat
  let below := num / den
  let remainder := num % den
  let belowReads := decimalRank below exponent == rank
  let aboveReads := decimalRank (below + 1) exponent == rank
  let belowPreferred := match compare (2 * remainder) den with
    | .lt => true
    | .eq => tie.goesBelow below
    | .gt => false
  if belowReads && (belowPreferred || !aboveReads) then some below
  else if aboveReads then some (below + 1)
  else none

/-- Every double reads back from a multiple of `10 ^ finestPower`. -/
def finestPower : Int := -324

/-- Tries the grids `10 ^ (finestPower + count)`, … , `10 ^ finestPower` in turn. -/
def firstOnGrids (tie : Tie) (negative : Bool) (rank : Nat) : Nat → Decimal
  | 0 => ⟨negative, units rank * Nat.pow 10 324 / one, finestPower⟩
  | count + 1 =>
    ((nearestOnGrid? tie rank (finestPower + count)).map fun coefficient =>
      ⟨negative, coefficient, finestPower + count⟩).getD (firstOnGrids tie negative rank count)

/-- The decimal with the fewest digits that reads back as the finite double of this sign and rank,
and of those the nearest. The coarsest grid with a hit gives the fewest digits; the search starts at
a power of ten above the double. -/
def shortest (tie : Tie) (negative : Bool) (rank : Nat) : Decimal :=
  if rank = 0 then ⟨negative, 0, 0⟩
  else firstOnGrids tie negative rank (325 + (Nat.toDigits 10 (units rank / one)).length)

/-- Positional notation, without a suffix on whole numbers. -/
def plainLayout : Decimal.Layout := ⟨none, ""⟩

/-- The text of a double in positional notation. -/
def plain : Binary64 → String
  | .nan => "NaN"
  | .signed negative rank _ =>
    if rank = topRank then if negative then "-inf" else "inf"
    else (shortest .up negative rank).text plainLayout

end AnimationKit.Binary64
