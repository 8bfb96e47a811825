import AnimationKit.Measure
import Mathlib.Tactic.Common

/-! The sign goes through every operation by itself: the magnitude of a result does not see it. -/
namespace AnimationKit

/-- The decimal with another sign. -/
def Decimal.withSign (negative : Bool) (d : Decimal) : Decimal :=
  ⟨negative, d.coefficient, d.exponent⟩

theorem Decimal.withSign_mk {negative n : Bool} {coefficient : Nat} {exponent : Int} :
    (Decimal.mk n coefficient exponent).withSign negative = ⟨negative, coefficient, exponent⟩ := rfl

namespace Binary64

variable {x y : Binary64}

theorem abs_neg : x.neg.abs = x.abs := by
  cases x <;> rfl

theorem isFinite_neg : x.neg.isFinite = x.isFinite := by
  cases x <;> rfl

theorem isFinite_abs : x.abs.isFinite = x.isFinite := by
  cases x <;> rfl

theorem neg_mul : x.neg.mul y = (x.mul y).neg := by
  cases x with
  | nan => rfl
  | signed n a ha =>
    cases y with
    | nan => rfl
    | signed m b hb =>
      have hsign : ((!n) != m) = !(n != m) := by cases n <;> cases m <;> rfl
      simp only [neg, mul, hsign]
      split
      · split <;> rfl
      · rfl

theorem neg_div : x.neg.div y = (x.div y).neg := by
  cases x with
  | nan => rfl
  | signed n a ha =>
    cases y with
    | nan => rfl
    | signed m b hb =>
      have hsign : ((!n) != m) = !(n != m) := by cases n <;> cases m <;> rfl
      simp only [neg, div, hsign]
      split
      · split <;> rfl
      · split
        · rfl
        · split
          · split <;> rfl
          · rfl

theorem round_neg : x.neg.round = x.round.neg := by
  cases x with
  | nan => rfl
  | signed n a h =>
    simp only [neg, round]
    split <;> rfl

theorem rounded_neg : Measure.rounded x.neg = (Measure.rounded x).neg := by
  unfold Measure.rounded
  rw [abs_neg]
  split
  · rw [neg_mul, round_neg, neg_div]
  · rfl

theorem abs_nan : nan.abs = nan := rfl

theorem abs_signed {negative : Bool} {rank : Nat} (h : rank ≤ topRank) :
    (signed negative rank h).abs = signed false rank h := rfl

theorem abs_infinity (negative : Bool) : (infinity negative).abs = infinity false := rfl

theorem abs_ofUnits (negative : Bool) (num den : Nat) :
    (ofUnits negative num den).abs = ofUnits false num den := rfl

theorem abs_mul : (x.mul y).abs = x.abs.mul y.abs := by
  cases x with
  | nan => rfl
  | signed n a ha =>
    cases y with
    | nan => rfl
    | signed m b hb =>
      simp only [mul, apply_ite abs, abs_nan, abs_signed, abs_infinity, abs_ofUnits,
        bne_self_eq_false]

theorem abs_div : (x.div y).abs = x.abs.div y.abs := by
  cases x with
  | nan => rfl
  | signed n a ha =>
    cases y with
    | nan => rfl
    | signed m b hb =>
      simp only [div, apply_ite abs, abs_nan, abs_signed, abs_infinity, abs_ofUnits,
        bne_self_eq_false]

theorem abs_round : x.round.abs = x.abs.round := by
  cases x with
  | nan => rfl
  | signed n a h => simp only [round, apply_ite abs, abs_signed, abs_ofUnits]

theorem abs_abs : x.abs.abs = x.abs := by
  cases x <;> rfl

theorem abs_rounded : (Measure.rounded x).abs = Measure.rounded x.abs := by
  have hpositive : Measure.tenThousand.abs = Measure.tenThousand := rfl
  unfold Measure.rounded
  rw [abs_abs]
  split
  · rw [abs_div, abs_round, abs_mul, hpositive]
  · rfl

theorem firstOnGrids_sign {tie : Tie} {negative : Bool} {rank count : Nat} :
    firstOnGrids tie negative rank count =
      (firstOnGrids tie false rank count).withSign negative := by
  induction count with
  | zero => rw [firstOnGrids, firstOnGrids, Decimal.withSign_mk]
  | succ count ih =>
    rw [firstOnGrids, firstOnGrids]
    cases nearestOnGrid? tie rank (finestPower + count) with
    | none => exact ih
    | some coefficient => rfl

/-- The digits of a number do not depend on its sign. -/
theorem shortest_sign {tie : Tie} {negative : Bool} {rank : Nat} :
    shortest tie negative rank = (shortest tie false rank).withSign negative := by
  unfold shortest
  split
  · rfl
  · exact firstOnGrids_sign

end Binary64
end AnimationKit
