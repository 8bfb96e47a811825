import AnimationKit.Binary64.Arithmetic
import Mathlib.Tactic.Common
import Mathlib.Tactic.Positivity
import Mathlib.Tactic.Ring

/-! Rounding leaves alone what a double has exactly. -/
namespace AnimationKit.Binary64

variable {num den rank : Nat}

theorem nearestNat_mul (h : 0 < den) : nearestNat (num * den) den = num := by
  simp [nearestNat, Nat.mul_div_cancel _ h, h]

theorem binade_eq : binade = 2 ^ 52 := rfl

theorem units_of_lt (h : rank < binade) : units rank = rank := by
  rw [units, significand, if_pos h, Nat.div_eq_of_lt h, Nat.zero_sub, Nat.pow_eq, Nat.pow_zero,
    Nat.mul_one]

theorem units_of_le (h : binade ≤ rank) :
    units rank = (binade + rank % binade) * 2 ^ (rank / binade - 1) := by
  rw [units, significand, if_neg (Nat.not_lt.mpr h), Nat.pow_eq]

/-- The scale of a double counts from the second binade. -/
theorem log2_units : (units rank).log2 - 52 = rank / binade - 1 := by
  by_cases h : rank < binade
  · rw [units_of_lt h, Nat.div_eq_of_lt h]
    by_cases hzero : rank = 0
    · simp [hzero]
    · have hlog := (Nat.log2_lt hzero).mpr (binade_eq ▸ h)
      omega
  · have hle := Nat.not_lt.mp h
    have hmod : rank % binade < binade := Nat.mod_lt rank (by decide)
    have hpos : 0 < binade + rank % binade := by omega
    have hne : units rank ≠ 0 := by
      rw [units_of_le hle]
      positivity
    have hlog : (units rank).log2 = 52 + (rank / binade - 1) := by
      rw [Nat.log2_eq_iff hne, units_of_le hle, Nat.pow_add, Nat.add_right_comm, Nat.pow_add]
      refine ⟨Nat.mul_le_mul_right _ ?_, Nat.mul_lt_mul_of_pos_right ?_ (by positivity)⟩
      · exact binade_eq ▸ Nat.le_add_right _ _
      · rw [binade_eq] at hmod ⊢
        omega
    omega

theorem scale_add_significand : (rank / binade - 1) * binade + significand rank = rank := by
  unfold significand
  rw [binade_eq]
  split <;> omega

/-- A double rounds to itself. -/
theorem nearestRank_units (h : rank ≤ topRank) (hden : 0 < den) :
    nearestRank (units rank * den) den = rank := by
  have hpos : 0 < den * 2 ^ (rank / binade - 1) := by positivity
  have hsteps : units rank * den = significand rank * (den * 2 ^ (rank / binade - 1)) := by
    rw [units, Nat.pow_eq]
    ring
  rw [nearestRank, Nat.mul_div_cancel _ hden, log2_units, Nat.pow_eq, hsteps, nearestNat_mul hpos,
    scale_add_significand, Nat.min_eq_left h]

theorem units_one : units (1023 * binade) = one := by decide +kernel

theorem one_pos : 0 < one := by
  rw [← units_one, units_of_le (by decide)]
  have hbinade : 0 < binade := by decide
  positivity

theorem ofNat_one : ofNat 1 = .signed false (1023 * binade) (by decide) := by
  have hrank : nearestRank (1 * one) 1 = 1023 * binade := by
    rw [Nat.one_mul, ← units_one, ← Nat.mul_one (units _)]
    exact nearestRank_units (by decide) (by decide)
  simp only [ofNat, ofQuotient, ofUnits, hrank]

theorem mul_one {x : Binary64} (h : x.isFinite = true) : x.mul (ofNat 1) = x := by
  cases x with
  | nan => simp [isFinite] at h
  | signed n a ha =>
    have hlt : a < topRank := by simpa [isFinite] using h
    have htop : ¬ (a = topRank ∨ 1023 * binade = topRank) := by
      rintro (he | he)
      · omega
      · exact absurd he (by decide)
    simp only [ofNat_one, mul, if_neg htop, ofUnits, units_one, nearestRank_units ha one_pos,
      Bool.bne_false]

/-- Nothing of a finite number is left by zero. -/
theorem mul_zero {x : Binary64} (h : x.isFinite = true) :
    ∃ negative, x.mul .zero = .signed negative 0 (Nat.zero_le _) := by
  cases x with
  | nan => simp [isFinite] at h
  | signed n a ha =>
    have hlt : a < topRank := by simpa [isFinite] using h
    have htop : ¬ (a = topRank ∨ 0 = topRank) := by
      rintro (he | he)
      · omega
      · exact absurd he (by decide)
    have hunits : units a * units 0 = units 0 * one := by
      have hzero : units 0 = 0 := units_of_lt (by decide)
      rw [hzero, Nat.mul_zero, Nat.zero_mul]
    have hrank : nearestRank (units a * units 0) one = 0 := by
      rw [hunits, nearestRank_units (Nat.zero_le _) one_pos]
    refine ⟨n, ?_⟩
    simp only [zero, mul, if_neg htop, ofUnits, hrank, Bool.bne_false]

end AnimationKit.Binary64
