import AnimationKit.Proofs.Easing
import AnimationKit.Proofs.Measure.Steps
import Mathlib.Algebra.Order.Archimedean.Basic

/-!
How far a number is moved by being written. Where the doubles are dense it is moved by less than the
last decimal. Farther out ten thousand times the number is rounded to a whole number of coarse steps,
and what comes back may be the neighbour of the number; up to the limit of rounding its steps grow to
more than the last decimal.
-/
namespace AnimationKit.Measure

open Binary64

variable {rank scale : Nat}

/-! Within one binade. -/

/-- The doubles of this binade, with the first of the next one, are a step of the scale apart. -/
structure InBinade (scale rank : Nat) : Prop where
  low : 2 ^ 52 * step scale ≤ magnitude rank
  high : magnitude rank ≤ 2 ^ 53 * step scale

/-- Ten thousand times the numbers of a binade. -/
structure InScaledBinade (scale rank : Nat) : Prop where
  low : 10000 * (2 ^ 52 * step scale) ≤ magnitude rank
  high : magnitude rank ≤ 10000 * (2 ^ 53 * step scale)

theorem InBinade.scaledUp (h : InBinade scale rank) (hscale : scale ≤ unitScale) :
    InScaledBinade scale (scaledUp rank) := by
  obtain ⟨hlow, hhigh⟩ := h
  have hunit : unitScale = 1074 := rfl
  have hstep := step_add scale 14
  have hcount (power : Nat) (hpower : power ≤ 39) : 10000 * 2 ^ power ≤ 2 * binade := by
    have hpow : 2 ^ power ≤ 2 ^ 39 := Nat.pow_le_pow_right (by decide) hpower
    rw [binade_eq]
    omega
  have hbelow := (nearest_scaledUp rank).steps_le _ (scale + 14) (hcount 38 (by decide))
    (by omega) (by push_cast; linarith)
  have habove := (nearest_scaledUp rank).le_steps _ (scale + 14) (hcount 39 (by decide))
    (by omega) (by push_cast; linarith)
  push_cast at hbelow habove
  constructor <;> linarith

theorem InScaledBinade.scaledDown (h : InScaledBinade scale rank) (hscale : scale ≤ unitScale) :
    InBinade scale (scaledDown rank) := by
  obtain ⟨hlow, hhigh⟩ := h
  have hunit : unitScale = 1074 := rfl
  have hbelow := (nearest_scaledDown rank).steps_le binade scale
    (by omega) (by omega) (by rw [cast_binade]; linarith)
  have habove := (nearest_scaledDown rank).le_steps _ scale (Nat.le_refl (2 * binade))
    (by omega) (by rw [cast_two_mul_binade]; linarith)
  rw [cast_binade] at hbelow
  rw [cast_two_mul_binade] at habove
  exact ⟨hbelow, habove⟩

/-- Down again, a number is moved by half of a step. -/
theorem abs_scaledDown_sub_le (h : InScaledBinade scale rank) (hscale : scale ≤ unitScale) :
    |10000 * magnitude (scaledDown rank) - magnitude rank| ≤ 5000 * step scale := by
  have hunit : unitScale = 1074 := rfl
  have hhigh := h.high
  have hle := (nearest_scaledDown rank).abs_sub_le scale (by omega) (by linarith)
  rw [abs_le] at hle ⊢
  constructor <;> linarith

/-- Up, it is moved by half of a step of the binade that it comes to. -/
theorem abs_scaledUp_sub_le_of_le (rank bits : Nat) (hbits : bits ≤ 14) (hscale : scale ≤ unitScale)
    (h : 10000 * magnitude rank ≤ 2 ^ 53 * (2 ^ bits * step scale)) :
    |magnitude (scaledUp rank) - 10000 * magnitude rank| ≤ 2 ^ bits * step scale / 2 := by
  have hunit : unitScale = 1074 := rfl
  rw [← step_add] at h ⊢
  exact (nearest_scaledUp rank).abs_sub_le _ (by omega) h

theorem InBinade.abs_scaledUp_sub_le (h : InBinade scale rank) (hscale : scale ≤ unitScale) :
    |magnitude (Measure.scaledUp rank) - 10000 * magnitude rank| ≤ 2 ^ 13 * step scale := by
  have hhigh := h.high
  have hpos := step_pos scale
  have hle := abs_scaledUp_sub_le_of_le rank 14 (le_refl 14) hscale (by linarith)
  linarith

theorem le_scaledUp_of_le (h : 2 ^ 52 ≤ 10000 * magnitude rank) :
    2 ^ 52 ≤ magnitude (scaledUp rank) := by
  have hle := (nearest_scaledUp rank).natCast_le (2 ^ 52) (by decide) (by
    push_cast
    linarith)
  push_cast at hle
  exact hle

theorem scaledUp_le_of_le (h : 10000 * magnitude rank ≤ 2 ^ 52) :
    magnitude (scaledUp rank) ≤ 2 ^ 52 := by
  have hle := (nearest_scaledUp rank).le_natCast (2 ^ 52) (by decide) (by
    push_cast
    linarith)
  push_cast at hle
  exact hle

/-- From here on there is nothing to round to a whole number. -/
theorem roundedRank_of_whole (h : 2 ^ 52 ≤ magnitude (scaledUp rank)) :
    roundedRank rank = scaledDown (scaledUp rank) := by
  obtain ⟨count, hcount⟩ := exists_natCast _ h
  rw [roundedRank, wholeRank_of_magnitude (scaledUp_le_topRank rank) hcount]

theorem InBinade.le_scaledUp (h : InBinade scale rank) (hscale : scale ≤ unitScale)
    (hunit : unitScale ≤ scale + 13) : 2 ^ 52 ≤ magnitude (Measure.scaledUp rank) := by
  have hlow := (h.scaledUp hscale).low
  have hone := one_le_step hunit
  rw [step_add] at hone
  linarith

/-- Where the steps of the whole numbers are fine enough, the number comes back. -/
theorem InBinade.roundedRank_of_fine (h : InBinade scale rank) (hrank : rank ≤ topRank)
    (hscale : scale ≤ unitScale) (hunit : unitScale ≤ scale + 13)
    (hfine : 10000 * magnitude rank ≤ 2 ^ 66 * step scale) : roundedRank rank = rank := by
  have hscaled := h.scaledUp hscale
  rw [roundedRank_of_whole (h.le_scaledUp hscale hunit)]
  refine rank_eq_of_magnitude (nearestRank_le_topRank _ _) hrank ?_
  apply magnitude_eq (hscaled.scaledDown hscale).low h.low
  have hup := abs_scaledUp_sub_le_of_le rank 13 (by decide) hscale (by linarith)
  have hdown := abs_scaledDown_sub_le hscaled hscale
  have hpos := step_pos scale
  rw [abs_le] at hup hdown
  rw [abs_lt]
  constructor <;> linarith

/-- Otherwise its neighbour may come back. -/
theorem InBinade.abs_roundedRank_sub_le (h : InBinade scale rank) (hscale : scale ≤ unitScale)
    (hwhole : 2 ^ 52 ≤ magnitude (Measure.scaledUp rank)) :
    |magnitude (roundedRank rank) - magnitude rank| ≤ step scale := by
  have hscaled := h.scaledUp hscale
  have hup := h.abs_scaledUp_sub_le hscale
  have hdown := abs_scaledDown_sub_le hscaled hscale
  have hpos := step_pos scale
  rw [roundedRank_of_whole hwhole]
  apply magnitude_sub_le_step (hscaled.scaledDown hscale).low h.low
  rw [abs_le] at hup hdown
  rw [abs_lt]
  constructor <;> linarith

/-- Where the steps of the whole numbers are coarse, a second pass comes to the same one. -/
theorem InBinade.scaledUp_roundedRank (h : InBinade scale rank) (hscale : scale ≤ unitScale)
    (hunit : unitScale ≤ scale + 14) (hcoarse : 2 ^ 66 * step scale ≤ 10000 * magnitude rank)
    (hagain : 2 ^ 66 * step scale ≤ 10000 * magnitude (roundedRank rank)) :
    Measure.scaledUp (roundedRank rank) = Measure.scaledUp rank := by
  have hlimit : unitScale = 1074 := rfl
  have hstep := step_add scale 14
  have hlow {other : Nat} (hother : 2 ^ 66 * step scale ≤ 10000 * magnitude other) :
      2 ^ 52 * step (scale + 14) ≤ magnitude (Measure.scaledUp other) := by
    rw [← cast_binade]
    refine (nearest_scaledUp other).steps_le _ _ (by omega) (by omega) ?_
    rw [cast_binade]
    linarith
  have hwhole : 2 ^ 52 ≤ magnitude (Measure.scaledUp rank) := by
    have hone := one_le_step hunit
    have hbelow := hlow hcoarse
    linarith
  have hscaled := h.scaledUp hscale
  have hresult : roundedRank rank = scaledDown (Measure.scaledUp rank) :=
    roundedRank_of_whole hwhole
  have hdown := abs_scaledDown_sub_le hscaled hscale
  have hbinade' : InBinade scale (roundedRank rank) := hresult ▸ hscaled.scaledDown hscale
  have hup := hbinade'.abs_scaledUp_sub_le hscale
  -- Both products are doubles of a scale whose step is more than the way down and up again.
  refine rank_eq_of_magnitude (scaledUp_le_topRank _) (scaledUp_le_topRank _) ?_
  apply magnitude_eq (hlow hagain) (hlow hcoarse)
  have hpos := step_pos scale
  rw [← hresult] at hdown
  rw [abs_le] at hup hdown
  rw [abs_lt]
  constructor <;> linarith

/-! The binades. -/

/-- The binade from `2 ^ (52 - bits)` on. -/
theorem inBinade_fraction (bits : Nat) (hbits : bits ≤ unitScale)
    (hlow : 2 ^ 52 ≤ 2 ^ bits * magnitude rank) (hhigh : 2 ^ bits * magnitude rank ≤ 2 ^ 53) :
    InBinade (unitScale - bits) rank := by
  have hstep := step_fraction bits hbits
  have hpos : (0 : ℚ) < 2 ^ bits := by positivity
  constructor
  · refine le_of_mul_le_mul_left ?_ hpos
    linarith
  · refine le_of_mul_le_mul_left ?_ hpos
    linarith

theorem exists_inBinade (hlow : 2 ^ 39 ≤ magnitude rank) (hhigh : magnitude rank ≤ 2 ^ 52) :
    ∃ scale ≤ unitScale, unitScale ≤ scale + 13 ∧ InBinade scale rank := by
  obtain ⟨power, hpower, hnext⟩ := exists_nat_pow_near
    (show (1 : ℚ) ≤ magnitude rank by linarith) (show (1 : ℚ) < 2 by norm_num)
  have hle : power ≤ 52 := by
    by_contra hlt
    have hpow : (2 : ℚ) ^ 53 ≤ 2 ^ power := pow_le_pow_right₀ (by norm_num) (by omega)
    linarith
  have hge : 39 ≤ power := by
    by_contra hlt
    have hpow : (2 : ℚ) ^ (power + 1) ≤ 2 ^ 39 := pow_le_pow_right₀ (by norm_num) (by omega)
    linarith
  have hunit : unitScale = 1074 := rfl
  have hsplit : (2 : ℚ) ^ (52 - power) * 2 ^ power = 2 ^ 52 := by
    rw [← pow_add, Nat.sub_add_cancel hle]
  have hpos : (0 : ℚ) < 2 ^ (52 - power) := by positivity
  refine ⟨unitScale - (52 - power), Nat.sub_le _ _, by omega,
    inBinade_fraction _ (by omega) ?_ ?_⟩
  · rw [← hsplit]
    exact mul_le_mul_of_nonneg_left hpower hpos.le
  · have hmul := mul_le_mul_of_nonneg_left hnext.le hpos.le
    rw [pow_succ, ← mul_assoc, hsplit] at hmul
    linarith

/-! The binade from `2 ^ 38` on, in which not all doubles come to whole numbers. -/

theorem inScaledBinade_wholeRank (h : InBinade (unitScale - 14) rank) :
    InScaledBinade (unitScale - 14) (wholeRank (scaledUp rank)) := by
  obtain ⟨hlow, hhigh⟩ := h.scaledUp (Nat.sub_le _ _)
  have hstep := step_fraction 14 (by decide)
  obtain ⟨hwhole, hwhole'⟩ := whole_bounds (scaledUp rank)
  have hless : ((10000 * 2 ^ 38 : Nat) : ℚ) < whole (scaledUp rank) + 1 := by
    push_cast
    linarith
  have hmore : (whole (scaledUp rank) : ℚ) < (10000 * 2 ^ 39 : Nat) + 1 := by
    push_cast
    linarith
  have hbelow : 10000 * 2 ^ 38 ≤ whole (scaledUp rank) := by
    exact Nat.le_of_lt_add_one (by exact_mod_cast hless)
  have habove : whole (scaledUp rank) ≤ 10000 * 2 ^ 39 := by
    exact Nat.le_of_lt_add_one (by exact_mod_cast hmore)
  have hcount : whole (scaledUp rank) ≤ 2 * binade := habove.trans (by decide)
  have hbelow' : ((10000 * 2 ^ 38 : Nat) : ℚ) ≤ whole (scaledUp rank) := by exact_mod_cast hbelow
  have habove' : (whole (scaledUp rank) : ℚ) ≤ (10000 * 2 ^ 39 : Nat) := by exact_mod_cast habove
  push_cast at hbelow' habove'
  constructor
  · rw [magnitude_wholeRank hcount]
    linarith
  · rw [magnitude_wholeRank hcount]
    linarith

/-- Half of a whole number is lost there, but the double that comes back is a neighbour. -/
theorem abs_roundedRank_sub_le_of_middle (h : InBinade (unitScale - 14) rank) :
    |magnitude (roundedRank rank) - magnitude rank| ≤ 1 / 16384 := by
  have hscale : unitScale - 14 ≤ unitScale := Nat.sub_le _ _
  have hstep := step_fraction 14 (by decide)
  rcases le_or_gt (2 ^ 52) (magnitude (scaledUp rank)) with hwhole | hfraction
  · have hle := h.abs_roundedRank_sub_le hscale hwhole
    linarith
  · have hscaled := inScaledBinade_wholeRank h
    have hsmall : 10000 * magnitude rank ≤ 2 ^ 52 := by
      by_contra hlarge
      have hle := le_scaledUp_of_le (not_le.mp hlarge).le
      linarith
    have hup := abs_scaledUp_sub_le_of_le rank 13 (by decide) hscale
      (by linarith)
    obtain ⟨hwhole, hwhole'⟩ := whole_bounds (scaledUp rank)
    have hcount : whole (scaledUp rank) ≤ 2 * binade := by
      have hless : (whole (scaledUp rank) : ℚ) < (2 * binade : Nat) := by
        rw [cast_two_mul_binade]
        linarith
      exact_mod_cast hless.le
    have hdown := abs_scaledDown_sub_le hscaled hscale
    rw [magnitude_wholeRank hcount] at hdown
    have hle := magnitude_sub_le_step (hscaled.scaledDown hscale).low h.low (by
      rw [abs_le] at hup hdown
      rw [abs_lt]
      constructor <;> linarith)
    have hresult : roundedRank rank = scaledDown (wholeRank (scaledUp rank)) := rfl
    rw [hresult]
    linarith

/-- A half below the whole number that a double came from goes up to it again. -/
theorem roundedRank_roundedRank_of_middle (h : InBinade (unitScale - 14) rank)
    (hcoarse : 2 ^ 52 ≤ 10000 * magnitude rank)
    (hless : 10000 * magnitude (roundedRank rank) < 2 ^ 52) :
    roundedRank (roundedRank rank) = roundedRank rank := by
  have hscale : unitScale - 14 ≤ unitScale := Nat.sub_le _ _
  have hstep := step_fraction 14 (by decide)
  have hwhole := le_scaledUp_of_le hcoarse
  obtain ⟨count, hcount⟩ := exists_natCast _ hwhole
  have hscaled := h.scaledUp hscale
  have hresult := roundedRank_of_whole hwhole
  have hdown := abs_scaledDown_sub_le hscaled hscale
  rw [← hresult] at hdown
  have hbinade : InBinade (unitScale - 14) (roundedRank rank) := hresult ▸ hscaled.scaledDown hscale
  have hup := abs_scaledUp_sub_le_of_le (roundedRank rank) 13 (by decide) hscale
    (by linarith)
  have hbelow := scaledUp_le_of_le hless.le
  have hhalf := step_fraction 1 (by decide)
  have hlow : 2 ^ 52 * step (unitScale - 1) ≤ magnitude (scaledUp (roundedRank rank)) := by
    have hlow := (hbinade.scaledUp hscale).low
    linarith
  have hlow' : 2 ^ 52 * step (unitScale - 1) ≤ magnitude (scaledUp rank) := by linarith
  -- The product of the second pass may be a half below the whole number, but a half goes up.
  have hclose := magnitude_sub_le_step hlow hlow' (by
    rw [abs_le] at hup hdown
    rw [abs_lt]
    constructor <;> linarith)
  rw [hcount, abs_le] at hclose
  rw [hcount] at hwhole
  have hagain : whole (scaledUp (roundedRank rank)) = count := by
    apply whole_eq <;> linarith
  have hmost : count ≤ 2 * binade := by
    have hhigh := hscaled.high
    have hle : (count : ℚ) ≤ (2 * binade : Nat) := by
      rw [cast_two_mul_binade]
      linarith
    exact_mod_cast hle
  have honce := whole_of_magnitude hcount
  rw [roundedRank_eq (hagain.trans_le hmost), hagain, roundedRank_eq (honce.trans_le hmost), honce]

/-! Up to the limit of rounding. -/

/-- Where doubles are dense, a number is moved by less than the last decimal. -/
theorem abs_roundedRank_sub_lt (hrank : rank ≤ topRank) (h : 10000 * magnitude rank ≤ 2 ^ 53) :
    |magnitude (roundedRank rank) - magnitude rank| < 1 / 10000 := by
  rcases le_or_gt (magnitude rank) (2 ^ 38) with hlow | hlow
  · rw [← cast_fineLimit] at hlow
    have hcount := whole_scaledUp_le hlow
    have hfine := fineLimit_le
    have hup := abs_scaledUp_sub_le hlow
    have hdown := abs_decimalsRank_sub_le hcount
    obtain ⟨hwhole, hwhole'⟩ := whole_bounds (scaledUp rank)
    rw [roundedRank_eq (hcount.trans hfine)]
    rw [abs_le] at hup hdown
    rw [abs_lt]
    constructor <;> linarith
  · rcases le_or_gt (magnitude rank) (2 ^ 39) with hmiddle | hmiddle
    · have hle := abs_roundedRank_sub_le_of_middle
        (inBinade_fraction 14 (by decide) (by linarith) (by linarith))
      linarith
    · have hbinade : InBinade (unitScale - 13) rank :=
        inBinade_fraction _ (by decide) (by linarith) (by linarith)
      have hstep := step_fraction 13 (by decide)
      rw [hbinade.roundedRank_of_fine hrank (Nat.sub_le _ _) (by decide) (by linarith), sub_self,
        abs_zero]
      norm_num

/-- Up to the limit of rounding it is moved to a neighbour at most. -/
theorem abs_roundedRank_sub_le (hlow : 2 ^ 39 ≤ magnitude rank) (hhigh : magnitude rank ≤ 2 ^ 52) :
    |magnitude (roundedRank rank) - magnitude rank| ≤ magnitude rank / 2 ^ 52 := by
  obtain ⟨scale, hscale, hunit, hbinade⟩ := exists_inBinade hlow hhigh
  have hle := hbinade.abs_roundedRank_sub_le hscale (hbinade.le_scaledUp hscale hunit)
  have hstep := hbinade.low
  linarith

theorem roundedRank_of_scaledUp (h : scaledUp (roundedRank rank) = scaledUp rank) :
    roundedRank (roundedRank rank) = roundedRank rank := by
  have hagain : roundedRank (roundedRank rank) =
      scaledDown (wholeRank (scaledUp (roundedRank rank))) := rfl
  rw [hagain, h]
  rfl

/-- A second pass changes nothing, but in a range in which not all doubles come to whole numbers. -/
theorem roundedRank_roundedRank (hrank : rank ≤ topRank) (hhigh : magnitude rank ≤ 2 ^ 52)
    (h : magnitude rank ≤ 2 ^ 38 ∨ 2 ^ 52 ≤ 10000 * magnitude rank) :
    roundedRank (roundedRank rank) = roundedRank rank := by
  rcases h with hlow | hlow
  · rw [← cast_fineLimit] at hlow
    have hcount := whole_scaledUp_le hlow
    have hmost := hcount.trans fineLimit_le
    rw [roundedRank_eq hmost, roundedRank_eq, whole_scaledUp_decimalsRank hcount]
    rwa [whole_scaledUp_decimalsRank hcount]
  · rcases le_or_gt (magnitude rank) (2 ^ 39) with hmiddle | hmiddle
    · -- The result may fall out of the range again.
      have hbinade : InBinade (unitScale - 14) rank :=
        inBinade_fraction _ (by decide) (by linarith) (by linarith)
      have hstep := step_fraction 14 (by decide)
      rcases lt_or_ge (10000 * magnitude (roundedRank rank)) (2 ^ 52) with hless | hagain
      · exact roundedRank_roundedRank_of_middle hbinade hlow hless
      · exact roundedRank_of_scaledUp (hbinade.scaledUp_roundedRank (Nat.sub_le _ _) (by decide)
          (by linarith) (by linarith))
    · obtain ⟨scale, hscale, hunit, hbinade⟩ := exists_inBinade hmiddle.le hhigh
      rcases le_or_gt (10000 * magnitude rank) (2 ^ 66 * step scale) with hfine | hcoarse
      · have hsame := hbinade.roundedRank_of_fine hrank hscale hunit hfine
        rw [hsame, hsame]
      · have hresult := roundedRank_of_whole (hbinade.le_scaledUp hscale hunit)
        have hbinade' : InBinade scale (roundedRank rank) :=
          hresult ▸ (hbinade.scaledUp hscale).scaledDown hscale
        rcases le_or_gt (10000 * magnitude (roundedRank rank)) (2 ^ 66 * step scale) with
          hfine | hagain
        · exact hbinade'.roundedRank_of_fine (roundedRank_le_topRank rank) hscale hunit hfine
        · exact roundedRank_of_scaledUp (hbinade.scaledUp_roundedRank hscale (by omega)
            hcoarse.le hagain.le)

/-! Written, read and written again. -/

variable {value : Binary64} {negative : Bool}

/-- How far a magnitude may be from what it is rounded to. -/
structure Close (given result : ℚ) : Prop where
  dense : given ≤ 2 ^ 53 / 10000 ∨ 10 ^ 15 ≤ given → |result - given| < 1 / 10000
  neighbour : 2 ^ 39 ≤ given → |result - given| ≤ given / 2 ^ 52

theorem Close.refl {given : ℚ} (h : 0 ≤ given) : Close given given := by
  constructor
  · intro _
    rw [sub_self, abs_zero]
    norm_num
  · intro _
    rw [sub_self, abs_zero]
    exact div_nonneg h (by norm_num)

/-- What is rounded once, and whether it is settled by that. -/
theorem rounded_close (negative : Bool) (h : rank < topRank) :
    ∃ result hresult, rounded (.signed negative rank h.le) = .signed negative result hresult ∧
      result < topRank ∧ Close (magnitude rank) (magnitude result) ∧
      (magnitude rank ≤ 2 ^ 38 ∨ 2 ^ 52 / 10000 ≤ magnitude rank →
        rounded (.signed negative result hresult) = .signed negative result hresult) := by
  obtain ⟨hlimit, -, -, hrounded⟩ := limitRank_closed
  by_cases hlt : rank < limitRank
  · have hbelow := magnitude_lt_magnitude hlimit.le hlt
    rw [magnitude_limitRank] at hbelow
    have hmono := roundedRank_mono hlimit.le hlt.le
    refine ⟨_, _, rounded_signed hlt, hmono.trans_lt hrounded, ⟨?_, ?_⟩, ?_⟩
    · rintro (hlow | hhigh)
      · exact abs_roundedRank_sub_lt h.le (by linarith)
      · linarith
    · intro hlow
      exact abs_roundedRank_sub_le hlow (by linarith)
    · intro hsettled
      have hagain := roundedRank_roundedRank h.le (by linarith)
        (hsettled.imp_right fun hlow => by linarith)
      rcases Nat.lt_or_ge (roundedRank rank) limitRank with hless | hmore
      · rw [rounded_signed hless]
        simp only [hagain]
      · exact rounded_of_limit hmore
  · have hmore : rounded (.signed negative rank h.le) = .signed negative rank h.le :=
      rounded_of_limit (Nat.not_lt.mp hlt)
    exact ⟨rank, h.le, hmore, h, .refl (magnitude_nonneg rank), fun _ => hmore⟩

/-- What is read again is the rounded number; only a zero loses its sign. -/
theorem reread_finite {result : Nat} {h : result ≤ topRank}
    (hrounded : rounded value = .signed negative result h) (hfinite : result ≠ topRank) :
    (reread value).toRat? = some (if negative then -magnitude result else magnitude result) ∧
      (rounded (.signed negative result h) = .signed negative result h →
        number (reread value) = number value) := by
  rw [reread_of_rounded hrounded]
  by_cases hzero : result = 0
  · have hnumber : number value = number .zero := by
      rw [number, hrounded, equals_zero_signed, decide_eq_true hzero]
      exact (number_zero false).symm
    have hmagnitude : magnitude result = 0 := by
      rw [hzero, magnitude, units_zero, Nat.cast_zero, zero_div]
    rw [if_pos (Or.inl hzero), hmagnitude, toRat?_zero]
    exact ⟨by cases negative <;> simp, fun _ => hnumber.symm⟩
  · rw [if_neg (not_or.mpr ⟨hzero, hfinite⟩), toRat?_magnitude hfinite]
    refine ⟨rfl, fun hagain => ?_⟩
    rw [number, number, hagain, hrounded]

/-- Written and read, a finite number is moved by less than the last decimal where the doubles are
dense or whole, and to a neighbour at most in between; written again, it is the same but for a range
in which the steps of the whole numbers fall short of those of the decimals. -/
theorem number_reread {q : ℚ} (hq : value.toRat? = some q) :
    ∃ again r, read? (number value).toList = some again ∧ again.toRat? = some r ∧
      (|q| ≤ 2 ^ 53 / 10000 ∨ 10 ^ 15 ≤ |q| → |r - q| < 1 / 10000) ∧
      (2 ^ 39 ≤ |q| → |r - q| ≤ |q| / 2 ^ 52) ∧
      (|q| ≤ 2 ^ 38 ∨ 2 ^ 52 / 10000 ≤ |q| → number again = number value) := by
  obtain ⟨negative, rank, h, rfl, hfinite, -⟩ := toRat?_eq_some hq
  have habs := abs_of_toRat? hq hfinite
  rw [toRat?_magnitude hfinite, Option.some.injEq] at hq
  obtain ⟨result, hresult, hrounded, hfinite', hclose, hsettled⟩ :=
    rounded_close negative (Nat.lt_of_le_of_ne h hfinite)
  obtain ⟨hrat, hnumber⟩ := reread_finite hrounded hfinite'.ne
  have hmoved : |(if negative then -magnitude result else magnitude result) - q| =
      |magnitude result - magnitude rank| := by
    rw [← hq]
    cases negative with
    | false => rfl
    | true => rw [if_pos rfl, if_pos rfl, neg_sub_neg, abs_sub_comm]
  refine ⟨_, _, read?_number _, hrat, ?_, ?_, ?_⟩
  · rw [hmoved, habs]
    exact hclose.dense
  · rw [hmoved, habs]
    exact hclose.neighbour
  · rw [habs]
    exact fun hrange => hnumber (hsettled hrange)

/-- A number of the range in which nothing drifts: it moves to its fourth decimal and stays there. -/
theorem number_reread_fiveDecimals :
    number fiveDecimals = "-12.1563" ∧ ∃ again r, read? "-12.1563".toList = some again ∧
      again.toRat? = some r ∧ |r - (-389 / 32)| < 1 / 10000 ∧ number again = "-12.1563" := by
  obtain ⟨hvalue, hnumber, -⟩ := fiveDecimals_closed
  obtain ⟨again, r, hread, hr, hclose, -, hsame⟩ := number_reread hvalue
  have hrange : |(-389 / 32 : ℚ)| ≤ 12.2 := by norm_num [abs_of_neg]
  rw [hnumber] at hread hsame
  exact ⟨hnumber, again, r, hread, hr, hclose (Or.inl (hrange.trans (by norm_num))),
    hsame (Or.inl (hrange.trans (by norm_num)))⟩

/-- A number behind eight trillion, by so many steps of its binade. -/
def farOut (steps : Nat) : Binary64 := .ofQuotient (8000000000000 * 1024 + steps) 1024

/-- A number behind three hundred billion, by so many steps of its binade. -/
def halfway (steps : Nat) : Binary64 := .ofQuotient (300000000000 * 16384 + steps) 16384

theorem drifts_closed :
    (number (farOut 512) = "8000000000000.499" ∧
      read? "8000000000000.499".toList = some (farOut 511) ∧
      (farOut 512).toRat? = some (8000000000000 + 512 / 1024) ∧
      (farOut 511).toRat? = some (8000000000000 + 511 / 1024)) ∧
    number (halfway 6) = "300000000000.0004" ∧
    read? "300000000000.0004".toList = some (halfway 7) ∧
    number (halfway 7) = "300000000000.0005" := by
  decide +kernel

/-- Eight trillion and a half comes back short by ten times the last decimal, and a number that was
written with the fourth decimal `4` is written with `5` after it was read. -/
theorem number_drifts :
    (∃ value q again r, value.toRat? = some q ∧ read? (number value).toList = some again ∧
      again.toRat? = some r ∧ 9 / 10000 ≤ |r - q|) ∧
    ∃ value again, number value = "300000000000.0004" ∧
      read? (number value).toList = some again ∧ number again = "300000000000.0005" := by
  obtain ⟨⟨hfar, hback, hgiven, hread⟩, hwritten, hagain, hdrifted⟩ := drifts_closed
  refine ⟨⟨farOut 512, _, farOut 511, _, hgiven, hfar ▸ hback, hread, ?_⟩,
    halfway 6, halfway 7, hwritten, hwritten ▸ hagain, hdrifted⟩
  norm_num [abs_of_neg]

end AnimationKit.Measure
