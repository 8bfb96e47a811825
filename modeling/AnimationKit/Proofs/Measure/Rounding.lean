import AnimationKit.Proofs.Binary64.Order
import AnimationKit.Proofs.Binary64.Shortest
import AnimationKit.Proofs.Measure
import Mathlib.Algebra.Order.Field.Power
import Mathlib.Algebra.Order.Field.Rat

/-!
Rounding to four decimals, rank by rank. Every step of it keeps the order of the magnitudes, so what
is rounded to more than a bound is known by one rank. For the bound zero it is the rank of half of
the last decimal.
-/
namespace AnimationKit.Measure

open Binary64

variable {value : Binary64} {negative : Bool} {rank other : Nat}

/-! The steps of rounding on ranks. -/

/-- The rank of ten thousand. -/
def scaledRank : Nat := nearestRank (10000 * one) 1

theorem scaledRank_closed : scaledRank < topRank ∧ units scaledRank = 10000 * one := by
  decide +kernel

theorem units_scaledRank : units scaledRank = 10000 * one := scaledRank_closed.2

theorem units_scaledRank_pos : 0 < units scaledRank := by
  have hone := Binary64.one_pos
  rw [units_scaledRank]
  omega

theorem units_zero : units 0 = 0 := units_of_lt (by decide)

/-- The rank of a magnitude times ten thousand. -/
def scaledUp (rank : Nat) : Nat := nearestRank (units rank * units scaledRank) one

/-- The rank of the whole number nearest to a magnitude. -/
def wholeRank (rank : Nat) : Nat := nearestRank ((2 * units rank + one) / (2 * one) * one) 1

/-- The rank of the ten-thousandth of a magnitude. -/
def scaledDown (rank : Nat) : Nat := nearestRank (units rank * one) (units scaledRank)

def roundedRank (rank : Nat) : Nat := scaledDown (wholeRank (scaledUp rank))

theorem scaledUp_le_topRank (rank : Nat) : scaledUp rank ≤ topRank := nearestRank_le_topRank _ _

theorem wholeRank_le_topRank (rank : Nat) : wholeRank rank ≤ topRank := nearestRank_le_topRank _ _

theorem roundedRank_le_topRank (rank : Nat) : roundedRank rank ≤ topRank :=
  nearestRank_le_topRank _ _

theorem scaledUp_mono (hle : other ≤ topRank) (h : rank ≤ other) :
    scaledUp rank ≤ scaledUp other :=
  nearestRank_mono Binary64.one_pos (Nat.mul_le_mul_right _ (units_mono hle h))

theorem wholeRank_mono (hle : other ≤ topRank) (h : rank ≤ other) :
    wholeRank rank ≤ wholeRank other := by
  have hunits := units_mono hle h
  have hquotient : (2 * units rank + one) / (2 * one) ≤ (2 * units other + one) / (2 * one) :=
    Nat.div_le_div_right (by omega)
  exact nearestRank_mono Nat.one_pos (Nat.mul_le_mul_right one hquotient)

theorem scaledDown_mono (hle : other ≤ topRank) (h : rank ≤ other) :
    scaledDown rank ≤ scaledDown other :=
  nearestRank_mono units_scaledRank_pos (Nat.mul_le_mul_right one (units_mono hle h))

theorem roundedRank_mono (hle : other ≤ topRank) (h : rank ≤ other) :
    roundedRank rank ≤ roundedRank other := by
  have hscaled := scaledUp_mono hle h
  have hwhole := wholeRank_mono (scaledUp_le_topRank other) hscaled
  exact scaledDown_mono (wholeRank_le_topRank _) hwhole

/-! The ranks that decide. -/

/-- The rank of the limit from which on nothing is rounded. -/
def limitRank : Nat := nearestRank (Nat.pow 10 15 * one) 1

/-- Half of the last decimal. -/
def halfStep : Binary64 := .ofQuotient 1 20000

/-- The rank of half of the last decimal. -/
def halfStepRank : Nat := nearestRank (1 * one) 20000

/-- No step leads from below the limit to infinity. -/
theorem limitRank_closed : limitRank < topRank ∧ scaledUp limitRank < topRank ∧
    wholeRank (scaledUp limitRank) < topRank ∧ roundedRank limitRank < topRank := by
  decide +kernel

/-- Half of the last decimal is the least magnitude that is not rounded to zero. -/
theorem halfStepRank_closed : 0 < halfStepRank ∧ halfStepRank < limitRank ∧
    roundedRank (halfStepRank - 1) = 0 ∧ 0 < roundedRank halfStepRank := by
  decide +kernel

/-- Rounding leads above a bound from this rank on. -/
structure Cut (bound cut : Nat) : Prop where
  pos : 0 < cut
  below : roundedRank (cut - 1) ≤ bound
  above : bound < roundedRank cut
  bound_lt : bound < limitRank
  cut_lt : cut < limitRank

theorem Cut.roundedRank_le_iff {bound cut : Nat} (hcut : Cut bound cut) (h : rank ≤ topRank) :
    roundedRank rank ≤ bound ↔ rank < cut := by
  obtain ⟨hpos, hbelow, habove, -, hlt⟩ := hcut
  have htop := limitRank_closed.1
  constructor
  · intro hle
    by_contra hnot
    have hmono := roundedRank_mono h (Nat.le_of_not_lt hnot)
    omega
  · intro hless
    have hmono := roundedRank_mono (show cut - 1 ≤ topRank by omega)
      (show rank ≤ cut - 1 by omega)
    omega

theorem halfStep_cut : Cut 0 halfStepRank := by
  obtain ⟨hpos, hlimit, hbelow, habove⟩ := halfStepRank_closed
  exact ⟨hpos, Nat.le_of_eq hbelow, habove, by omega, hlimit⟩

/-! Rounding a number. -/

theorem abs_lt_roundingLimit {h : rank ≤ topRank} :
    (Binary64.signed negative rank h).abs.lt roundingLimit = decide (rank < limitRank) := by
  have hlimit : roundingLimit = .signed false limitRank (nearestRank_le_topRank _ _) := rfl
  simp only [hlimit, abs_signed, lt, place?, Bool.false_eq_true, if_false, Nat.cast_lt]

theorem halfStep_le {h : rank ≤ topRank} :
    halfStep.le (.signed false rank h) = decide (halfStepRank ≤ rank) := by
  have hhalf : halfStep = .signed false halfStepRank (nearestRank_le_topRank _ _) := rfl
  simp only [hhalf, le, place?, Bool.false_eq_true, if_false, Nat.cast_le]

/-- Rounding keeps the sign and goes by the rank. -/
theorem rounded_signed {h : rank ≤ topRank} (hlt : rank < limitRank) :
    rounded (.signed negative rank h) =
      .signed negative (roundedRank rank) (roundedRank_le_topRank rank) := by
  have hten : tenThousand = .signed false scaledRank (Nat.le_of_lt scaledRank_closed.1) := rfl
  -- No step comes to infinity below the limit, so each of them is the step on ranks.
  obtain ⟨hlimit, hup, hwhole, -⟩ := limitRank_closed
  have hle := Nat.le_of_lt hlt
  have hup' := scaledUp_mono (Nat.le_of_lt hlimit) hle
  have hwhole' := wholeRank_mono (Nat.le_of_lt hup) hup'
  have hrank : rank ≠ topRank := by omega
  have hscaled : scaledUp rank ≠ topRank := by omega
  have hne : wholeRank (scaledUp rank) ≠ topRank := by omega
  have htop : scaledRank ≠ topRank := Nat.ne_of_lt scaledRank_closed.1
  have hdivisor : scaledRank ≠ 0 := by
    intro hzero
    have hpos := units_scaledRank_pos
    rw [hzero, units_zero] at hpos
    omega
  have hmul : (Binary64.signed negative rank h).mul tenThousand =
      .signed negative (scaledUp rank) (scaledUp_le_topRank rank) := by
    simp only [hten, mul, hrank, htop, or_self, if_false, Bool.bne_false, ofUnits]
    rfl
  have hround : (Binary64.signed negative (scaledUp rank) (scaledUp_le_topRank rank)).round =
      .signed negative (wholeRank (scaledUp rank)) (wholeRank_le_topRank _) := by
    simp only [Binary64.round, hscaled, if_false, ofUnits]
    rfl
  rw [rounded, abs_lt_roundingLimit, if_pos (decide_eq_true hlt), hmul, hround]
  simp only [hten, div, hne, htop, hdivisor, if_false, Bool.bne_false, ofUnits]
  rfl

/-- From the limit on the value stays as it is. -/
theorem rounded_of_limit {h : rank ≤ topRank} (hlimit : limitRank ≤ rank) :
    rounded (.signed negative rank h) = .signed negative rank h := by
  rw [rounded, abs_lt_roundingLimit, if_neg (by simpa using hlimit)]

/-- A finite number stays finite, and whether it gets above a bound is known by its rank. -/
theorem rounded_cut (negative : Bool) (h : rank < topRank) :
    ∃ result hresult, rounded (.signed negative rank (Nat.le_of_lt h)) =
        .signed negative result hresult ∧
      result < topRank ∧ ∀ bound cut, Cut bound cut → (result ≤ bound ↔ rank < cut) := by
  obtain ⟨hlimit, -, -, hrounded⟩ := limitRank_closed
  by_cases hlt : rank < limitRank
  · refine ⟨_, _, rounded_signed hlt, ?_, fun _ _ hcut => hcut.roundedRank_le_iff (Nat.le_of_lt h)⟩
    have hmono := roundedRank_mono (Nat.le_of_lt hlimit) (Nat.le_of_lt hlt)
    omega
  · -- It is above every bound.
    refine ⟨rank, Nat.le_of_lt h, rounded_of_limit (Nat.not_lt.mp hlt), h, fun _ _ hcut => ?_⟩
    have hbound := hcut.bound_lt
    have hcut := hcut.cut_lt
    omega

/-- Zero comes only from below half of the last decimal. -/
theorem rounded_finite (negative : Bool) (h : rank < topRank) :
    ∃ result hresult, rounded (.signed negative rank (Nat.le_of_lt h)) =
        .signed negative result hresult ∧
      result < topRank ∧ (result = 0 ↔ rank < halfStepRank) := by
  obtain ⟨result, hresult, hrounded, hfinite, hcut⟩ := rounded_cut negative h
  exact ⟨result, hresult, hrounded, hfinite, by rw [← hcut 0 _ halfStep_cut, Nat.le_zero]⟩

/-! The exact number that is written. -/

theorem toRat_shortest_pos (h : rank ≤ topRank) (hne : rank ≠ 0) :
    0 < (shortest .up false rank).toRat := by
  have hcoefficient : (shortest .up false rank).coefficient ≠ 0 := by
    intro hzero
    have hrank := decimalRank_shortest h .up false
    rw [hzero, decimalRank_zero] at hrank
    exact hne hrank.symm
  have hpos : (0 : ℚ) < (shortest .up false rank).coefficient := by
    exact_mod_cast Nat.pos_of_ne_zero hcoefficient
  rw [Decimal.toRat, negative_shortest]
  simp only [Bool.false_eq_true, if_false]
  positivity

theorem decimal_of_rounded {h : rank ≤ topRank}
    (hrounded : rounded value = .signed negative rank h) :
    decimal value =
      if rank = 0 ∨ rank = topRank then ⟨false, 0, 0⟩ else shortest .up negative rank := by
  unfold decimal
  split
  · rename_i hnan
    rw [hrounded] at hnan
    simp at hnan
  · rename_i hsigned
    rw [hrounded] at hsigned
    obtain ⟨rfl, rfl⟩ := Binary64.signed.inj hsigned
    rfl

/-- The exact number that a text denotes for a magnitude: it is not negative, and it is zero only
for less than half of the last decimal. -/
def Shows (value : Binary64) (text : String) : Prop :=
  ∃ amount, ratOfText? text = some amount ∧ 0 ≤ amount ∧ (0 < amount ↔ halfStep.le value = true)

theorem shows_number (hfinite : value.isFinite = true) (hpos : Binary64.zero.lt value = true) :
    Shows value (number value) := by
  refine ⟨_, ratOfText?_number value, ?_⟩
  cases value with
  | nan => simp [isFinite] at hfinite
  | signed negative rank h =>
    have htop : rank < topRank := by simpa [isFinite] using hfinite
    obtain rfl : negative = false := by
      cases negative with
      | false => rfl
      | true =>
        simp only [lt, place?, zero, if_true, Bool.false_eq_true, if_false,
          decide_eq_true_eq] at hpos
        omega
    obtain ⟨result, hresult, hrounded, hfinite', hzero⟩ := rounded_finite false htop
    rw [halfStep_le, decide_eq_true_eq, decimal_of_rounded hrounded]
    by_cases hnone : result = 0
    · rw [if_pos (Or.inl hnone)]
      have hless := hzero.mp hnone
      have hamount : (⟨false, 0, 0⟩ : Decimal).toRat = 0 := by simp [Decimal.toRat]
      rw [hamount]
      exact ⟨le_refl _, fun hlt => absurd hlt (lt_irrefl _), fun hge => by omega⟩
    · rw [if_neg (not_or.mpr ⟨hnone, Nat.ne_of_lt hfinite'⟩)]
      have hamount := toRat_shortest_pos hresult hnone
      have hge : halfStepRank ≤ rank := Nat.le_of_not_lt fun hless => hnone (hzero.mpr hless)
      exact ⟨hamount.le, fun _ => hge, fun _ => hamount⟩

end AnimationKit.Measure
