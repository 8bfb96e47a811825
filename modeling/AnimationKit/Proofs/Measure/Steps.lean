import AnimationKit.Proofs.Binary64.Nearest
import AnimationKit.Proofs.Measure.Rounding

/-!
The steps of rounding to four decimals in exact numbers: ten thousand times the value, the nearest
whole number, and the ten-thousandth of that, each rounded to a double. Up to a limit the doubles
are close enough for the whole number to be found again.
-/
namespace AnimationKit.Measure

open Binary64

variable {rank count : Nat}

/-! Each step by itself. -/

theorem nearest_scaledUp (rank : Nat) : Nearest (10000 * magnitude rank) (scaledUp rank) := by
  refine ⟨units rank * units scaledRank, one, Binary64.one_pos, ?_, rfl⟩
  rw [units_scaledRank, Nat.cast_mul, Nat.cast_mul, Nat.cast_ofNat, ← magnitude_mul_one]
  ring

theorem nearest_scaledDown (rank : Nat) : Nearest (magnitude rank / 10000) (scaledDown rank) := by
  refine ⟨units rank * one, units scaledRank, units_scaledRank_pos, ?_, rfl⟩
  rw [units_scaledRank, Nat.cast_mul, Nat.cast_mul, Nat.cast_ofNat, ← magnitude_mul_one]
  ring

/-- The whole number nearest to a magnitude. -/
def whole (rank : Nat) : Nat := (2 * units rank + one) / (2 * one)

/-- It is at most a half away, and a half itself goes up. -/
theorem whole_bounds (rank : Nat) :
    (whole rank : ℚ) ≤ magnitude rank + 1 / 2 ∧ magnitude rank + 1 / 2 < whole rank + 1 := by
  have hpos : 0 < 2 * one := Nat.mul_pos (by decide) Binary64.one_pos
  have hlow := Nat.div_mul_le_self (2 * units rank + one) (2 * one)
  have hhigh := Nat.lt_div_mul_add hpos (a := 2 * units rank + one)
  have hlow' : (whole rank : ℚ) * (2 * one) ≤ 2 * units rank + one := by exact_mod_cast hlow
  have hhigh' : (2 * units rank + one : ℚ) < whole rank * (2 * one) + 2 * one := by
    exact_mod_cast hhigh
  have hone := one_pos_rat
  rw [← magnitude_mul_one] at hlow' hhigh'
  constructor
  · refine le_of_mul_le_mul_right ?_ hone
    linarith
  · refine lt_of_mul_lt_mul_right ?_ hone.le
    linarith

theorem whole_eq (hlow : (count : ℚ) ≤ magnitude rank + 1 / 2)
    (hhigh : magnitude rank + 1 / 2 < count + 1) : whole rank = count := by
  obtain ⟨hle, hlt⟩ := whole_bounds rank
  have hbelow : (whole rank : ℚ) < count + 1 := by linarith
  have habove : (count : ℚ) < whole rank + 1 := by linarith
  have hbelow' : whole rank < count + 1 := by exact_mod_cast hbelow
  have habove' : count < whole rank + 1 := by exact_mod_cast habove
  omega

theorem whole_of_magnitude (h : magnitude rank = count) : whole rank = count :=
  whole_eq (by linarith) (by linarith)

theorem nearest_wholeRank (rank : Nat) : Nearest (whole rank) (wholeRank rank) := by
  refine ⟨whole rank * one, 1, Nat.one_pos, ?_, rfl⟩
  rw [Nat.cast_mul, Nat.cast_one, one_mul]

theorem magnitude_wholeRank (h : whole rank ≤ 2 * binade) :
    magnitude (wholeRank rank) = whole rank :=
  (nearest_wholeRank rank).eq_natCast h

/-- A double that is a whole number is not moved. -/
theorem wholeRank_of_magnitude (hrank : rank ≤ topRank) (h : magnitude rank = count) :
    wholeRank rank = rank := by
  have hnearest := nearest_wholeRank rank
  rw [whole_of_magnitude h, ← h] at hnearest
  exact hnearest.unique (.self hrank)

/-- Beyond the whole numbers that a double counts one by one, every double is a whole number. -/
theorem exists_magnitude_wholeRank (rank : Nat) :
    ∃ count : Nat, magnitude (wholeRank rank) = count := by
  rcases Nat.lt_or_ge (2 * binade) (whole rank) with hlarge | hsmall
  · have hle : ((2 * binade : Nat) : ℚ) ≤ whole rank := by exact_mod_cast hlarge.le
    have hmagnitude := (nearest_wholeRank rank).natCast_le _ (Nat.le_refl _) hle
    rw [cast_two_mul_binade] at hmagnitude
    exact exists_natCast _ (by linarith)
  · exact ⟨_, magnitude_wholeRank hsmall⟩

theorem magnitude_limitRank : magnitude limitRank = 10 ^ 15 := by
  have hnearest : Nearest ((10 ^ 15 : Nat) : ℚ) limitRank :=
    ⟨Nat.pow 10 15 * one, 1, Nat.one_pos, by push_cast; ring, rfl⟩
  rw [hnearest.eq_natCast (by decide), Nat.cast_pow, Nat.cast_ofNat]

/-! The way up to a whole number and down again. -/

/-- The rank of the double nearest to so many ten-thousandths. -/
def decimalsRank (count : Nat) : Nat := nearestRank (count * one) 10000

theorem nearest_decimalsRank (count : Nat) : Nearest (count / 10000) (decimalsRank count) := by
  refine ⟨count * one, 10000, by decide, ?_, rfl⟩
  rw [Nat.cast_mul, Nat.cast_ofNat]
  ring

theorem roundedRank_eq (h : whole (scaledUp rank) ≤ 2 * binade) :
    roundedRank rank = decimalsRank (whole (scaledUp rank)) := by
  have hdown := nearest_scaledDown (wholeRank (scaledUp rank))
  rw [magnitude_wholeRank h] at hdown
  exact hdown.unique (nearest_decimalsRank _)

/-- Up to here there are doubles within a sixth of the last decimal from every number. -/
def fineLimit : Nat := 2 ^ 38

theorem fineLimit_le : 10000 * fineLimit ≤ 2 * binade := by decide

theorem cast_fineLimit : (fineLimit : ℚ) = 2 ^ 38 := by norm_num [fineLimit]

/-- Ten thousand times a number is moved by a quarter at most. -/
theorem abs_scaledUp_sub_le (h : magnitude rank ≤ fineLimit) :
    |magnitude (scaledUp rank) - 10000 * magnitude rank| ≤ 1 / 4 := by
  have hhalf := step_fraction 1 (by decide)
  have hle := (nearest_scaledUp rank).abs_sub_le (unitScale - 1) (by decide) (by
    rw [cast_fineLimit] at h
    linarith)
  linarith

theorem whole_scaledUp_le (h : magnitude rank ≤ fineLimit) :
    whole (scaledUp rank) ≤ 10000 * fineLimit := by
  have hle : magnitude (scaledUp rank) ≤ (10000 * fineLimit : Nat) := by
    refine (nearest_scaledUp rank).le_natCast _ fineLimit_le ?_
    rw [Nat.cast_mul, Nat.cast_ofNat]
    linarith
  have hwhole := (whole_bounds (scaledUp rank)).1
  have hlt : (whole (scaledUp rank) : ℚ) < (10000 * fineLimit : Nat) + 1 := by linarith
  have hlt' : whole (scaledUp rank) < 10000 * fineLimit + 1 := by exact_mod_cast hlt
  omega

/-- The ten-thousandth of a whole number is moved by less than a sixth of itself. -/
theorem abs_decimalsRank_sub_le (h : count ≤ 10000 * fineLimit) :
    |10000 * magnitude (decimalsRank count) - count| ≤ 10000 / 65536 := by
  have hfraction := step_fraction 15 (by decide)
  have hcount : (count : ℚ) ≤ 10000 * fineLimit := by exact_mod_cast h
  rw [cast_fineLimit] at hcount
  have hle := (nearest_decimalsRank count).abs_sub_le (unitScale - 15) (by decide) (by
    linarith)
  rw [abs_le] at hle ⊢
  constructor <;> linarith

theorem magnitude_decimalsRank_le (h : count ≤ 10000 * fineLimit) :
    magnitude (decimalsRank count) ≤ fineLimit := by
  have hcount : (count : ℚ) ≤ 10000 * fineLimit := by exact_mod_cast h
  exact (nearest_decimalsRank count).le_natCast fineLimit (by decide) (by linarith)

/-- Rounding comes back to the whole number that it went down from. -/
theorem whole_scaledUp_decimalsRank (h : count ≤ 10000 * fineLimit) :
    whole (scaledUp (decimalsRank count)) = count := by
  have hup := abs_scaledUp_sub_le (magnitude_decimalsRank_le h)
  have hdown := abs_decimalsRank_sub_le h
  rw [abs_le] at hup hdown
  apply whole_eq <;> linarith

/-! A number with five decimals. -/

/-- Minus twelve and five thirty-seconds. -/
def fiveDecimals : Binary64 := (ofQuotient 389 32).neg

theorem fiveDecimals_closed : fiveDecimals.toRat? = some (-389 / 32) ∧
    number fiveDecimals = "-12.1563" ∧ fiveDecimals.lt .zero = true := by
  decide +kernel

end AnimationKit.Measure
