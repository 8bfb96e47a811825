import AnimationKit.Proofs.Measure.Steps

/-!
Numbers that four decimals hold. Up to a limit there is a double within less than a quarter of the
last decimal on either side of each of them, so that every step of rounding comes back to them.
-/
namespace AnimationKit

namespace Measure

open Binary64

variable {count rank : Nat}

/-- Up to so many ten-thousandths the doubles lie closer than a sixth of one. -/
def mostDecimals : Nat := 10 ^ 15

theorem mostDecimals_le : mostDecimals ≤ 10000 * fineLimit := by decide

/-- Rounding leaves the double nearest to a number with four decimals as it is. -/
theorem roundedRank_decimalsRank (h : count ≤ mostDecimals) :
    roundedRank (decimalsRank count) = decimalsRank count := by
  have hmost := mostDecimals_le
  have hwhole := whole_scaledUp_decimalsRank (h.trans hmost)
  have hfine := fineLimit_le
  rw [roundedRank_eq (by omega), hwhole]

theorem decimalsRank_closed : decimalsRank mostDecimals < decimalsRank (mostDecimals + 1) ∧
    decimalsRank mostDecimals < limitRank ∧
    decimalsRank mostDecimals = nearestRank (Nat.pow 10 11 * one) 1 := by
  decide +kernel

theorem whole_scaledUp_le_mostDecimals (h : rank ≤ decimalsRank mostDecimals) :
    whole (scaledUp rank) ≤ mostDecimals := by
  have htop : decimalsRank mostDecimals ≤ topRank := nearestRank_le_topRank _ _
  have hunits := units_mono (scaledUp_le_topRank _) (scaledUp_mono htop h)
  rw [← whole_scaledUp_decimalsRank mostDecimals_le]
  exact Nat.div_le_div_right (by omega)

/-- Rounding leads to the double nearest to a number with four decimals. -/
theorem roundedRank_eq_decimalsRank (h : rank ≤ decimalsRank mostDecimals) :
    roundedRank rank = decimalsRank (whole (scaledUp rank)) := by
  have hmost := whole_scaledUp_le_mostDecimals h
  exact roundedRank_eq (hmost.trans (mostDecimals_le.trans fineLimit_le))

theorem roundedRank_eq_iff (h : rank ≤ decimalsRank mostDecimals) :
    roundedRank rank = rank ↔ ∃ count, rank = decimalsRank count := by
  constructor
  · intro hrank
    exact ⟨_, hrank.symm.trans (roundedRank_eq_decimalsRank h)⟩
  · rintro ⟨count, rfl⟩
    apply roundedRank_decimalsRank
    by_contra hmore
    have hmono : decimalsRank (mostDecimals + 1) ≤ decimalsRank count :=
      nearestRank_mono (by decide) (Nat.mul_le_mul_right one (by omega))
    have hclosed := decimalsRank_closed.1
    omega

/-! Numbers that rounding leaves as they are. -/

variable {value : Binary64}

/-- The double nearest to a number with four decimals at most. -/
def HasDecimals (value : Binary64) : Prop :=
  ∃ negative count, value = ofUnits negative (count * one) 10000

/-- Up to here there is no need to look at a number but by its decimals: a hundred billion. -/
def decimalsLimit : Binary64 := .ofNat (Nat.pow 10 11)

theorem decimalsLimit_eq : decimalsLimit =
    .signed false (decimalsRank mostDecimals) (nearestRank_le_topRank _ _) := by
  simp only [decimalsLimit, ofNat, ofQuotient, ofUnits, decimalsRank_closed.2.2]

theorem abs_le_decimalsLimit {negative : Bool} {h : rank ≤ topRank} :
    (Binary64.signed negative rank h).abs.le decimalsLimit = true ↔
      rank ≤ decimalsRank mostDecimals := by
  simp only [decimalsLimit_eq, abs_signed, le, place?, Bool.false_eq_true, if_false, Nat.cast_le,
    decide_eq_true_eq]

theorem equals_signed {negative : Bool} {other : Nat} {h : rank ≤ topRank} {h' : other ≤ topRank} :
    (Binary64.signed negative rank h).equals (.signed negative other h') = true ↔
      rank = other := by
  cases negative <;> simp [equals, place?]

theorem hasDecimals_signed {negative : Bool} {h : rank ≤ topRank} :
    HasDecimals (.signed negative rank h) ↔ ∃ count, rank = decimalsRank count := by
  constructor
  · rintro ⟨other, count, hvalue⟩
    exact ⟨count, (Binary64.signed.inj hvalue).2⟩
  · rintro ⟨count, rfl⟩
    exact ⟨negative, count, rfl⟩

/-- Rounding leaves just the numbers with four decimals as they are. -/
theorem rounded_equals_iff (h : value.abs.le decimalsLimit = true) :
    (rounded value).equals value = true ↔ HasDecimals value := by
  cases value with
  | nan => simp [abs_nan, le, place?] at h
  | signed negative rank hrank =>
    have hle := abs_le_decimalsLimit.mp h
    have hlimit := decimalsRank_closed.2.1
    rw [rounded_signed (by omega), equals_signed, hasDecimals_signed, roundedRank_eq_iff hle]

theorem le_nan (x : Binary64) : x.le .nan = false := by
  cases x <;> rfl

/-- From the limit of rounding on every number stays as it is. -/
theorem rounded_equals_of_limit (h : roundingLimit.le value.abs = true) :
    (rounded value).equals value = true := by
  have hlimit : roundingLimit = .signed false limitRank (nearestRank_le_topRank _ _) := rfl
  cases value with
  | nan =>
    rw [abs_nan, le_nan] at h
    exact (Bool.false_ne_true h).elim
  | signed negative rank hrank =>
    have hge : limitRank ≤ rank := by
      simpa only [hlimit, abs_signed, le, place?, Bool.false_eq_true, if_false, Nat.cast_le,
        decide_eq_true_eq] using h
    rw [rounded_of_limit hge, equals_signed]

end Measure
end AnimationKit
