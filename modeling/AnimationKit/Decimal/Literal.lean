import AnimationKit.Decimal.Basic

/-!
Number literals in text: an optional sign, then `inf`, `infinity` or `nan` in any case of letters,
or digits with an optional point and an optional exponent. A literal has no blanks inside it.
-/
namespace AnimationKit

/-- What a number literal denotes. -/
inductive Literal where
  | nan
  | infinite (negative : Bool)
  | decimal (value : Decimal)
deriving DecidableEq

/-- The number that a row of digits writes. -/
def natOfDigits (digits : List Char) : Nat :=
  digits.foldl (fun n c => 10 * n + (c.toNat - '0'.toNat)) 0

namespace Literal

/-- Takes a sign off; without one the number is not negative. -/
def splitSign : List Char → Bool × List Char
  | '+' :: rest => (false, rest)
  | '-' :: rest => (true, rest)
  | rest => (false, rest)

/-- The exponent written by the end of a literal: nothing, or a mark, a sign and digits. -/
def exponent? : List Char → Option Int
  | [] => some 0
  | mark :: rest =>
    if mark = 'e' ∨ mark = 'E' then
      let (negative, digits) := splitSign rest
      if digits ≠ [] ∧ digits.all Char.isDigit then
        let power : Int := natOfDigits digits
        some (if negative then -power else power)
      else none
    else none

/-- Takes the point and the digits behind it off. -/
def splitFraction : List Char → List Char × List Char
  | '.' :: rest => (rest.takeWhile Char.isDigit, rest.dropWhile Char.isDigit)
  | rest => ([], rest)

/-- Reads an unsigned decimal; a digit is needed on one side of the point. -/
def magnitude? (negative : Bool) (chars : List Char) : Option Decimal :=
  let whole := chars.takeWhile Char.isDigit
  let (fraction, rest) := splitFraction (chars.dropWhile Char.isDigit)
  if whole = [] ∧ fraction = [] then none
  else (exponent? rest).map fun power =>
    ⟨negative, natOfDigits (whole ++ fraction), power - fraction.length⟩

def read? (chars : List Char) : Option Literal :=
  let (negative, rest) := splitSign chars
  let lower := rest.map Char.toLower
  if lower = ['i', 'n', 'f'] ∨ lower = ['i', 'n', 'f', 'i', 'n', 'i', 't', 'y'] then
    some (.infinite negative)
  else if lower = ['n', 'a', 'n'] then some .nan
  else (magnitude? negative rest).map .decimal

end Literal
end AnimationKit
