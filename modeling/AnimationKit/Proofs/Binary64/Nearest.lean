import AnimationKit.Proofs.Binary64.Shortest
import AnimationKit.Proofs.Binary64.Value
import Mathlib.Algebra.Order.Field.Power
import Mathlib.Tactic.FieldSimp
import Mathlib.Tactic.Linarith

/-!
How far rounding goes. Between two powers of two the doubles stand in equal steps, a number there is
moved by half of a step at most, and what is a double already is not moved at all.
-/
namespace AnimationKit

/-- What stands on one grid is apart by whole widths of it. -/
theorem sub_le_of_close {a b count : Nat} {width : ℚ} (hpos : 0 < width)
    (h : |(a : ℚ) * width - b * width| < (count + 1) * width) :
    |(a : ℚ) * width - b * width| ≤ count * width := by
  rw [← sub_mul, abs_mul, abs_of_pos hpos] at h ⊢
  have hless : |(a : ℚ) - b| < count + 1 := lt_of_mul_lt_mul_right h hpos.le
  have hint : |(a : Int) - b| < count + 1 := by exact_mod_cast hless
  have hle : |(a : ℚ) - b| ≤ count := by exact_mod_cast Int.le_of_lt_add_one hint
  exact mul_le_mul_of_nonneg_right hle hpos.le

namespace Binary64

variable {num den steps scale rank other count : Nat} {p q : ℚ}

/-! Whole steps of a scale. -/

/-- In its own binade a scale counts the doubles one by one. -/
theorem units_of_steps (scale : Nat) (hlow : binade ≤ steps) (hhigh : steps < 2 * binade) :
    units (scale * binade + steps) = steps * 2 ^ scale := by
  have hpos : 0 < binade := by decide
  obtain ⟨rest, rfl⟩ := Nat.exists_eq_add_of_le hlow
  have hrest : rest < binade := by omega
  have hrank : scale * binade + (binade + rest) = binade * (scale + 1) + rest := by ring
  have hquotient : (binade * (scale + 1) + rest) / binade = scale + 1 := by
    rw [Nat.mul_add_div hpos, Nat.div_eq_of_lt hrest, Nat.add_zero]
  have hremainder : (binade * (scale + 1) + rest) % binade = rest := by
    rw [Nat.mul_add_mod, Nat.mod_eq_of_lt hrest]
  have hle : binade ≤ binade * (scale + 1) + rest :=
    (Nat.le_mul_of_pos_right binade (Nat.succ_pos scale)).trans (Nat.le_add_right _ _)
  rw [hrank, units_of_le hle, hquotient, hremainder, Nat.add_sub_cancel]

/-- So many steps of a scale are the magnitude of a double, if 53 bits hold their number. -/
theorem exists_rank (hsteps : steps < 2 * binade) (hscale : scale ≤ 2045) :
    ∃ rank, rank ≤ topRank ∧ units rank = steps * 2 ^ scale := by
  induction scale generalizing steps with
  | zero =>
    refine ⟨steps, ?_, ?_⟩
    · have htop : topRank = 2047 * binade := rfl
      omega
    · by_cases hlow : steps < binade
      · rw [units_of_lt hlow, Nat.pow_zero, Nat.mul_one]
      · have hunits := units_of_steps 0 (Nat.not_lt.mp hlow) hsteps
        rwa [Nat.zero_mul, Nat.zero_add] at hunits
  | succ scale ih =>
    by_cases hlow : steps < binade
    · -- Half the step and twice as many of them.
      obtain ⟨rank, hrank, hunits⟩ := ih (show 2 * steps < 2 * binade by omega) (by omega)
      refine ⟨rank, hrank, ?_⟩
      rw [hunits, Nat.pow_succ]
      ring
    · refine ⟨(scale + 1) * binade + steps, ?_,
        units_of_steps (scale + 1) (Nat.not_lt.mp hlow) hsteps⟩
      have hscales : (scale + 1) * binade ≤ 2045 * binade := Nat.mul_le_mul_right _ hscale
      have htop : topRank = 2047 * binade := rfl
      omega

/-- A carry out of the significand leads to the first double of the next binade. -/
theorem units_of_carry (hlow : scale = 0 ∨ binade ≤ steps) (hhigh : steps ≤ 2 * binade) :
    units (scale * binade + steps) = steps * 2 ^ scale := by
  rcases Nat.lt_or_eq_of_le hhigh with hlt | rfl
  · by_cases hsteps : binade ≤ steps
    · exact units_of_steps scale hsteps hlt
    · obtain rfl : scale = 0 := hlow.resolve_right hsteps
      rw [Nat.zero_mul, Nat.zero_add, units_of_lt (Nat.not_le.mp hsteps), Nat.pow_zero, Nat.mul_one]
  · have hpos : 0 < binade := by decide
    have hnext := units_of_steps (scale + 1) (Nat.le_refl binade) (by omega)
    have hrank : (scale + 1) * binade + binade = scale * binade + 2 * binade := by ring
    rw [← hrank, hnext, Nat.pow_succ]
    ring

/-- Rounding counts steps of the scale of a quotient. -/
theorem units_nearestRank_eq (hden : 0 < den) (hscale : scaleOf num den ≤ 2044) :
    units (nearestRank num den) =
      nearestNat num (den * 2 ^ scaleOf num den) * 2 ^ scaleOf num den := by
  have hhigh := nearestNat_le_binades num hden
  have hlow : scaleOf num den = 0 ∨ binade ≤ nearestNat num (den * 2 ^ scaleOf num den) :=
    (Nat.eq_zero_or_pos _).imp_right (binade_le_nearestNat hden)
  have hle : scaleOf num den * binade + nearestNat num (den * 2 ^ scaleOf num den) ≤ topRank := by
    have hscales : scaleOf num den * binade ≤ 2044 * binade := Nat.mul_le_mul_right _ hscale
    have htop : topRank = 2047 * binade := rfl
    omega
  rw [nearestRank_eq, Nat.min_eq_left hle, units_of_carry hlow hhigh]

theorem nearestNat_mul_le (num : Nat) (hden : 0 < den) :
    2 * (nearestNat num den * den) ≤ 2 * num + den := by
  have hdivision := Nat.div_add_mod num den
  have hquotient : nearestNat num den = num / den ∨
      nearestNat num den = num / den + 1 ∧ den ≤ 2 * (num % den) := by
    unfold nearestNat
    dsimp only
    split_ifs <;> omega
  generalize num / den = quotient at *
  generalize num % den = remainder at *
  rw [Nat.mul_comm] at hdivision
  rcases hquotient with h | ⟨h, hle⟩
  · rw [h]
    omega
  · rw [h, Nat.add_mul]
    omega

theorem scaleOf_le (hden : 0 < den) (h : num < 2 ^ (53 + scale) * den) :
    scaleOf num den ≤ scale := by
  have hlt : num / den < 2 ^ (53 + scale) := (Nat.div_lt_iff_lt_mul hden).mpr h
  unfold scaleOf
  by_cases hzero : num / den = 0
  · rw [hzero, Nat.log2_zero]
    exact Nat.zero_le _
  · have hlog := (Nat.log2_lt hzero).mpr hlt
    omega

theorem significand_lt (rank : Nat) : significand rank < 2 * binade := by
  have hmod := Nat.mod_lt rank (show 0 < binade by decide)
  unfold significand
  split <;> omega

/-! Magnitudes. -/

/-- The magnitude of the double of this rank. -/
def magnitude (rank : Nat) : ℚ := (units rank : ℚ) / (one : ℚ)

/-- How far the doubles of this scale are apart. -/
def step (scale : Nat) : ℚ := (2 : ℚ) ^ scale / (one : ℚ)

/-- The scale of the whole numbers. -/
def unitScale : Nat := 1074

theorem cast_binade : (binade : ℚ) = 2 ^ 52 := by norm_num [binade_eq]

theorem cast_two_mul_binade : ((2 * binade : Nat) : ℚ) = 2 ^ 53 := by norm_num [binade_eq]

theorem one_eq : one = 2 ^ unitScale := by decide +kernel

theorem step_unitScale : step unitScale = 1 := by
  have hpow : (one : ℚ) = (2 : ℚ) ^ unitScale := by
    rw [one_eq, Nat.cast_pow, Nat.cast_ofNat]
  rw [step, ← hpow, div_self one_pos_rat.ne']

theorem mul_step_unitScale (q : ℚ) : q * step unitScale = q := by
  rw [step_unitScale]
  ring

theorem unitScale_le : unitScale ≤ 2044 := by decide

theorem step_add (scale count : Nat) : step (scale + count) = 2 ^ count * step scale := by
  rw [step, step, pow_add]
  ring

theorem one_le_step (h : unitScale ≤ scale) : 1 ≤ step scale := by
  obtain ⟨count, rfl⟩ := Nat.exists_eq_add_of_le h
  rw [step_add, mul_step_unitScale]
  exact one_le_pow₀ (by norm_num)

theorem step_pos (scale : Nat) : 0 < step scale := div_pos (by positivity) one_pos_rat

/-- Below one the steps are the fractions of one. -/
theorem step_fraction (count : Nat) (h : count ≤ unitScale) :
    2 ^ count * step (unitScale - count) = 1 := by
  rw [← step_add, Nat.sub_add_cancel h, step_unitScale]

theorem magnitude_mul_one (rank : Nat) : magnitude rank * one = units rank :=
  div_mul_cancel₀ _ one_pos_rat.ne'

theorem step_mul_one (scale : Nat) : step scale * one = 2 ^ scale :=
  div_mul_cancel₀ _ one_pos_rat.ne'

theorem magnitude_nonneg (rank : Nat) : 0 ≤ magnitude rank :=
  div_nonneg (Nat.cast_nonneg _) one_pos_rat.le

theorem magnitude_le_magnitude (hle : other ≤ topRank) (h : rank ≤ other) :
    magnitude rank ≤ magnitude other := by
  have hunits : (units rank : ℚ) ≤ units other := by exact_mod_cast units_mono hle h
  exact div_le_div_of_nonneg_right hunits one_pos_rat.le

theorem magnitude_lt_magnitude (hle : other ≤ topRank) (h : rank < other) :
    magnitude rank < magnitude other := by
  have hunits : (units rank : ℚ) < units other := by exact_mod_cast units_lt_units hle h
  exact div_lt_div_of_pos_right hunits one_pos_rat

theorem rank_eq_of_magnitude (hrank : rank ≤ topRank) (hother : other ≤ topRank)
    (h : magnitude rank = magnitude other) : rank = other := by
  rcases Nat.lt_trichotomy rank other with hlt | heq | hlt
  · exact absurd h (magnitude_lt_magnitude hother hlt).ne
  · exact heq
  · exact absurd h (magnitude_lt_magnitude hrank hlt).ne'

theorem exists_magnitude (hcount : count ≤ 2 * binade) (hscale : scale ≤ 2044) :
    ∃ rank ≤ topRank, magnitude rank = count * step scale := by
  obtain ⟨rank, hrank, hunits⟩ : ∃ rank, rank ≤ topRank ∧ units rank = count * 2 ^ scale := by
    rcases Nat.lt_or_eq_of_le hcount with hlt | rfl
    · exact exists_rank hlt (by omega)
    · obtain ⟨rank, hrank, hunits⟩ :=
        exists_rank (show binade < 2 * binade by decide) (show scale + 1 ≤ 2045 by omega)
      exact ⟨rank, hrank, by rw [hunits, Nat.pow_succ]; ring⟩
  refine ⟨rank, hrank, ?_⟩
  rw [magnitude, hunits, step]
  push_cast
  ring

/-- The number that a finite double stands for, by its magnitude. -/
theorem toRat?_magnitude {negative : Bool} {h : rank ≤ topRank} (hfinite : rank ≠ topRank) :
    (signed negative rank h).toRat? =
      some (if negative then -magnitude rank else magnitude rank) := by
  rw [toRat?_signed hfinite, magnitude]
  cases negative with
  | false => rw [signedUnits, if_neg Bool.false_ne_true, if_neg Bool.false_ne_true, Int.cast_natCast]
  | true => rw [signedUnits, if_pos rfl, if_pos rfl, Int.cast_neg, Int.cast_natCast, ← neg_div']

theorem abs_of_toRat? {negative : Bool} {h : rank ≤ topRank}
    (hq : (signed negative rank h).toRat? = some q) (hfinite : rank ≠ topRank) :
    |q| = magnitude rank := by
  rw [toRat?_magnitude hfinite] at hq
  rw [← Option.some.inj hq]
  cases negative <;> simp [abs_of_nonneg (magnitude_nonneg rank)]

/-- From the binade of a scale on, every double is a whole number of its steps. -/
theorem exists_count (scale rank : Nat) (h : (2 : ℚ) ^ 52 * step scale ≤ magnitude rank) :
    ∃ count : Nat, magnitude rank = count * step scale := by
  have hunits : binade * 2 ^ scale ≤ units rank := by
    rw [step, magnitude, ← mul_div_assoc, div_le_div_iff_of_pos_right one_pos_rat] at h
    rw [binade_eq]
    exact_mod_cast h
  have hscale : scale ≤ rank / binade - 1 := by
    by_contra hlt
    have hpow : 2 * 2 ^ (rank / binade - 1) ≤ 2 ^ scale := by
      rw [← Nat.pow_succ']
      exact Nat.pow_le_pow_right (by decide) (by omega)
    have hless : units rank < binade * 2 ^ scale := by
      calc units rank = significand rank * 2 ^ (rank / binade - 1) := rfl
        _ < 2 * binade * 2 ^ (rank / binade - 1) :=
          Nat.mul_lt_mul_of_pos_right (significand_lt rank) (by positivity)
        _ = binade * (2 * 2 ^ (rank / binade - 1)) := by ring
        _ ≤ binade * 2 ^ scale := Nat.mul_le_mul_left _ hpow
    omega
  refine ⟨significand rank * 2 ^ (rank / binade - 1 - scale), ?_⟩
  have hfactor : units rank = significand rank * 2 ^ (rank / binade - 1 - scale) * 2 ^ scale := by
    rw [Nat.mul_assoc, ← Nat.pow_add, Nat.sub_add_cancel hscale]
    rfl
  rw [magnitude, hfactor, step]
  push_cast
  ring

/-- A large double is a whole number. -/
theorem exists_natCast (rank : Nat) (h : 2 ^ 52 ≤ magnitude rank) :
    ∃ count : Nat, magnitude rank = count := by
  obtain ⟨count, hcount⟩ := exists_count unitScale rank (by rwa [mul_step_unitScale])
  exact ⟨count, by rw [hcount, mul_step_unitScale]⟩

/-- Two doubles from there on are apart by whole steps. -/
theorem magnitude_sub_le (count : Nat) (hrank : (2 : ℚ) ^ 52 * step scale ≤ magnitude rank)
    (hother : (2 : ℚ) ^ 52 * step scale ≤ magnitude other)
    (h : |magnitude rank - magnitude other| < (count + 1) * step scale) :
    |magnitude rank - magnitude other| ≤ count * step scale := by
  obtain ⟨a, ha⟩ := exists_count scale rank hrank
  obtain ⟨b, hb⟩ := exists_count scale other hother
  rw [ha, hb] at h ⊢
  exact sub_le_of_close (step_pos scale) h

/-- Doubles that are less than two steps apart are neighbours. -/
theorem magnitude_sub_le_step (hrank : (2 : ℚ) ^ 52 * step scale ≤ magnitude rank)
    (hother : (2 : ℚ) ^ 52 * step scale ≤ magnitude other)
    (h : |magnitude rank - magnitude other| < 2 * step scale) :
    |magnitude rank - magnitude other| ≤ step scale := by
  have hle := magnitude_sub_le 1 hrank hother (by
    rw [Nat.cast_one]
    linarith)
  rwa [Nat.cast_one, one_mul] at hle

theorem magnitude_eq (hrank : (2 : ℚ) ^ 52 * step scale ≤ magnitude rank)
    (hother : (2 : ℚ) ^ 52 * step scale ≤ magnitude other)
    (h : |magnitude rank - magnitude other| < step scale) : magnitude rank = magnitude other := by
  have hle := magnitude_sub_le 0 hrank hother (by
    rw [Nat.cast_zero]
    linarith)
  rw [Nat.cast_zero, zero_mul] at hle
  exact sub_eq_zero.mp (abs_nonpos_iff.mp hle)

/-! The double that a number is rounded to. -/

/-- The double of this rank is the one that a number is rounded to. -/
def Nearest (q : ℚ) (rank : Nat) : Prop :=
  ∃ num den : Nat, 0 < den ∧ (num : ℚ) = q * (den * one) ∧ nearestRank num den = rank

namespace Nearest

theorem self (h : rank ≤ topRank) : Nearest (magnitude rank) rank := by
  refine ⟨units rank * 1, 1, Nat.one_pos, ?_, nearestRank_units h Nat.one_pos⟩
  rw [Nat.mul_one, ← magnitude_mul_one, Nat.cast_one]
  ring

theorem mono (h : Nearest p rank) (h' : Nearest q other) (hle : p ≤ q) : rank ≤ other := by
  obtain ⟨num, den, hden, hnum, rfl⟩ := h
  obtain ⟨num', den', hden', hnum', rfl⟩ := h'
  have hproduct : (0 : ℚ) ≤ den * one * den' :=
    mul_nonneg (mul_nonneg (Nat.cast_nonneg _) one_pos_rat.le) (Nat.cast_nonneg _)
  have hcross : den' * num ≤ den * num' := by
    have hcast : (den' : ℚ) * num ≤ den * num' := by
      calc (den' : ℚ) * num = p * (den * one * den') := by rw [hnum]; ring
        _ ≤ q * (den * one * den') := mul_le_mul_of_nonneg_right hle hproduct
        _ = den * num' := by rw [hnum']; ring
    exact_mod_cast hcast
  calc nearestRank num den = nearestRank (den' * num) (den' * den) :=
        (nearestRank_mul_left hden').symm
    _ ≤ nearestRank (den * num') (den' * den) := nearestRank_mono (by positivity) hcross
    _ = nearestRank num' den' := by rw [Nat.mul_comm den' den, nearestRank_mul_left hden]

theorem unique (h : Nearest q rank) (h' : Nearest q other) : rank = other :=
  Nat.le_antisymm (h.mono h' le_rfl) (h'.mono h le_rfl)

theorem le_topRank (h : Nearest q rank) : rank ≤ topRank := by
  obtain ⟨num, den, -, -, rfl⟩ := h
  exact nearestRank_le_topRank num den

/-- Nothing is rounded beyond a double. -/
theorem le_steps (h : Nearest q rank) (count scale : Nat) (hcount : count ≤ 2 * binade)
    (hscale : scale ≤ 2044) (hle : q ≤ count * step scale) : magnitude rank ≤ count * step scale := by
  obtain ⟨bound, hbound, hmagnitude⟩ := exists_magnitude hcount hscale
  rw [← hmagnitude] at hle ⊢
  exact magnitude_le_magnitude hbound (h.mono (self hbound) hle)

theorem steps_le (h : Nearest q rank) (count scale : Nat) (hcount : count ≤ 2 * binade)
    (hscale : scale ≤ 2044) (hle : count * step scale ≤ q) : count * step scale ≤ magnitude rank := by
  obtain ⟨bound, hbound, hmagnitude⟩ := exists_magnitude hcount hscale
  rw [← hmagnitude] at hle ⊢
  exact magnitude_le_magnitude h.le_topRank ((self hbound).mono h hle)

theorem le_natCast (h : Nearest q rank) (count : Nat) (hcount : count ≤ 2 * binade) (hle : q ≤ count) :
    magnitude rank ≤ count := by
  have hsteps := h.le_steps count unitScale hcount unitScale_le (by rwa [mul_step_unitScale])
  rwa [mul_step_unitScale] at hsteps

theorem natCast_le (h : Nearest q rank) (count : Nat) (hcount : count ≤ 2 * binade) (hle : count ≤ q) :
    count ≤ magnitude rank := by
  have hsteps := h.steps_le count unitScale hcount unitScale_le (by rwa [mul_step_unitScale])
  rwa [mul_step_unitScale] at hsteps

theorem eq_natCast (h : Nearest count rank) (hcount : count ≤ 2 * binade) :
    magnitude rank = count :=
  le_antisymm (h.le_natCast count hcount le_rfl) (h.natCast_le count hcount le_rfl)

/-- A number is moved by half of a step at most, however large the steps are taken. -/
theorem abs_sub_le (h : Nearest q rank) (scale : Nat) (hscale : scale ≤ 2044)
    (hle : q ≤ (2 : ℚ) ^ 53 * step scale) : |magnitude rank - q| ≤ step scale / 2 := by
  rcases lt_or_eq_of_le hle with hlt | heq
  · obtain ⟨num, den, hden, hnum, rfl⟩ := h
    have hdenPos : (0 : ℚ) < den := by exact_mod_cast hden
    have hone := one_pos_rat
    have hscaleOf : scaleOf num den ≤ scale := by
      apply scaleOf_le hden
      have hcast : (num : ℚ) < 2 ^ (53 + scale) * den := by
        calc (num : ℚ) = q * (den * one) := hnum
          _ < 2 ^ 53 * step scale * (den * one) :=
            mul_lt_mul_of_pos_right hlt (mul_pos hdenPos hone)
          _ = 2 ^ 53 * (step scale * one) * den := by ring
          _ = 2 ^ (53 + scale) * den := by rw [step_mul_one, pow_add]
      exact_mod_cast hcast
    have hunits := units_nearestRank_eq hden (hscaleOf.trans hscale)
    generalize scaleOf num den = own at hscaleOf hunits
    have hpos : 0 < den * 2 ^ own := by positivity
    have habove := two_mul_le_nearestNat num hpos
    have hbelow := nearestNat_mul_le num hpos
    generalize nearestNat num (den * 2 ^ own) = steps at hunits habove hbelow
    have habove' : 2 * (num : ℚ) ≤ (2 * steps + 1) * (den * 2 ^ own) := by exact_mod_cast habove
    have hbelow' : 2 * ((steps : ℚ) * (den * 2 ^ own)) ≤ 2 * num + den * 2 ^ own := by
      exact_mod_cast hbelow
    have hpow : (2 : ℚ) ^ own ≤ 2 ^ scale := pow_le_pow_right₀ (by norm_num) hscaleOf
    have hgap : (magnitude (nearestRank num den) - q) * (den * one) =
        steps * (den * 2 ^ own) - num := by
      calc (magnitude (nearestRank num den) - q) * (den * one)
          = magnitude (nearestRank num den) * one * den - q * (den * one) := by ring
        _ = (steps * 2 ^ own : Nat) * den - num := by rw [magnitude_mul_one, hunits, hnum]
        _ = steps * (den * 2 ^ own) - num := by
          push_cast
          ring
    have hmul : (den : ℚ) * 2 ^ own ≤ den * 2 ^ scale := mul_le_mul_of_nonneg_left hpow hdenPos.le
    have hstep : step scale / 2 * (den * one) = den * 2 ^ scale / 2 := by
      rw [← step_mul_one]
      ring
    have hwidth : (0 : ℚ) < den * one := mul_pos hdenPos hone
    rw [abs_le]
    constructor
    · refine le_of_mul_le_mul_right ?_ hwidth
      rw [hgap, ← neg_mul_eq_neg_mul, hstep]
      linarith
    · refine le_of_mul_le_mul_right ?_ hwidth
      rw [hgap, hstep]
      linarith
  · -- At the end of the binade there is a double.
    have hat : magnitude rank = q := by
      have hhigh := h.le_steps _ scale (Nat.le_refl (2 * binade)) hscale
        (by rw [cast_two_mul_binade, heq])
      have hlow := h.steps_le _ scale (Nat.le_refl (2 * binade)) hscale
        (by rw [cast_two_mul_binade, heq])
      rw [cast_two_mul_binade] at hhigh hlow
      linarith
    rw [hat, sub_self, abs_zero]
    exact div_nonneg (step_pos scale).le (by norm_num)

end Nearest

end Binary64
end AnimationKit
