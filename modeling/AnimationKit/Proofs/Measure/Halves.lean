import AnimationKit.Proofs.Measure.Canonical
import AnimationKit.Proofs.Measure.Decimals

/-!
Half of a number that is written, and what is written for half of the number. The one is rounded
before it is halved and the other afterwards, so that they meet only where the count of decimals is
even.
-/
namespace AnimationKit.Measure

open Binary64

variable {rank other count : Nat} {negative : Bool}

/-! Halves of doubles. -/

/-- The rank of a half. -/
def halfRank : Nat := nearestRank (1 * one) 2

theorem halfRank_closed : halfRank < topRank ∧ 2 * units halfRank = one ∧
    2 * binade ≤ nearestRank (1 * one) 100000 := by
  decide +kernel

/-- The rank of half of a magnitude. -/
def halvedRank (rank : Nat) : Nat := nearestRank (units rank * units halfRank) one

theorem mul_half {h : rank ≤ topRank} (hfinite : rank ≠ topRank) :
    (Binary64.signed negative rank h).mul (.ofQuotient 1 2) =
      .signed negative (halvedRank rank) (nearestRank_le_topRank _ _) := by
  have hhalf : Binary64.ofQuotient 1 2 = .signed false halfRank (nearestRank_le_topRank _ _) := rfl
  have htop : halfRank ≠ topRank := Nat.ne_of_lt halfRank_closed.1
  simp only [hhalf, mul, hfinite, htop, or_self, if_false, Bool.bne_false, ofUnits]
  rfl

theorem nearest_halvedRank (rank : Nat) : Nearest (magnitude rank / 2) (halvedRank rank) := by
  refine ⟨units rank * units halfRank, one, Binary64.one_pos, ?_, rfl⟩
  have hhalf : (2 : ℚ) * units halfRank = one := by exact_mod_cast halfRank_closed.2.1
  rw [Nat.cast_mul, ← magnitude_mul_one]
  calc magnitude rank * one * units halfRank
      = magnitude rank / 2 * (one * (2 * units halfRank)) := by ring
    _ = magnitude rank / 2 * (one * one) := by rw [hhalf]

/-- Behind the first two binades halves are doubles, too. -/
theorem magnitude_halvedRank (hrank : rank ≤ topRank) (hlow : 2 * binade ≤ rank) :
    magnitude (halvedRank rank) = magnitude rank / 2 := by
  obtain ⟨half, hhalf, hmagnitude⟩ : ∃ half ≤ topRank, magnitude half = magnitude rank / 2 := by
    have hpos : 0 < binade := by decide
    have hscale : 2 ≤ rank / binade := (Nat.le_div_iff_mul_le hpos).mpr hlow
    have hscale' : rank / binade ≤ 2047 :=
      (Nat.div_le_div_right hrank).trans_eq (Nat.mul_div_cancel 2047 hpos)
    obtain ⟨half, hhalf, hunits⟩ :=
      exists_rank (significand_lt rank) (show rank / binade - 2 ≤ 2045 by omega)
    have hdouble : units rank = 2 * units half := by
      have hpower : rank / binade - 1 = rank / binade - 2 + 1 := by omega
      calc units rank = significand rank * 2 ^ (rank / binade - 1) := rfl
        _ = 2 * (significand rank * 2 ^ (rank / binade - 2)) := by
          rw [hpower, Nat.pow_succ]
          ring
        _ = 2 * units half := by rw [hunits]
    refine ⟨half, hhalf, ?_⟩
    rw [magnitude, magnitude, hdouble]
    push_cast
    ring
  have hnearest := nearest_halvedRank rank
  rw [← hmagnitude] at hnearest
  rw [hnearest.unique (.self hhalf), hmagnitude]

/-! Counts of decimals. -/

/-- Counts of which one is nearly the double of the other. -/
def Halved (count half : Nat) : Prop := 2 * half ≤ count + 1 ∧ count ≤ 2 * half + 1

/-- What is nearly half of another number is rounded to nearly half of the count. -/
theorem halved_whole (h : |2 * magnitude other - magnitude rank| ≤ 1 / 2) :
    Halved (whole rank) (whole other) := by
  obtain ⟨hlow, hhigh⟩ := whole_bounds rank
  obtain ⟨hlow', hhigh'⟩ := whole_bounds other
  rw [abs_le] at h
  have hbelow : ((2 * whole other : Nat) : ℚ) < (whole rank + 2 : Nat) := by
    push_cast
    linarith
  have habove : (whole rank : ℚ) < (2 * whole other + 2 : Nat) := by
    push_cast
    linarith
  have hbelow' : 2 * whole other < whole rank + 2 := by exact_mod_cast hbelow
  have habove' : whole rank < 2 * whole other + 2 := by exact_mod_cast habove
  exact ⟨by omega, by omega⟩

theorem magnitude_mostDecimals : magnitude (decimalsRank mostDecimals) = 10 ^ 11 := by
  have hcount : ((mostDecimals : Nat) : ℚ) / 10000 = (10 ^ 11 : Nat) := by
    norm_num [mostDecimals]
  have hnearest := nearest_decimalsRank mostDecimals
  rw [hcount] at hnearest
  rw [hnearest.eq_natCast (by decide), Nat.cast_pow, Nat.cast_ofNat]

theorem halvedRank_le (hrank : rank ≤ topRank) : halvedRank rank ≤ rank := by
  have hnonneg := magnitude_nonneg rank
  exact (nearest_halvedRank rank).mono (.self hrank) (by linarith)

/-- Ten thousand times a number and ten thousand times its half are rounded alike. -/
theorem halved_whole_scaledUp (hrank : rank ≤ decimalsRank mostDecimals) :
    Halved (whole (scaledUp rank)) (whole (scaledUp (halvedRank rank))) := by
  have hmost : decimalsRank mostDecimals ≤ topRank := nearestRank_le_topRank _ _
  have htop := hrank.trans hmost
  have hmagnitude := magnitude_le_magnitude hmost hrank
  have hsmaller := magnitude_le_magnitude htop (halvedRank_le htop)
  rw [magnitude_mostDecimals] at hmagnitude
  apply halved_whole
  have hfine : magnitude rank ≤ fineLimit := by
    rw [cast_fineLimit]
    linarith
  have hup := abs_scaledUp_sub_le hfine
  have hstep := step_fraction 2 (by decide)
  have hhalfUp := (nearest_scaledUp (halvedRank rank)).abs_sub_le (unitScale - 2)
    (by decide) (by linarith)
  by_cases hlow : 2 * binade ≤ rank
  · have hhalf := magnitude_halvedRank htop hlow
    rw [abs_le] at hup hhalfUp ⊢
    constructor <;> linarith
  · -- Both are next to nothing, and halving may have rounded.
    have hsmall : magnitude rank < 1 / 100000 := by
      by_contra hlarge
      have hnearest : Nearest (1 / 100000) (nearestRank (1 * one) 100000) :=
        ⟨1 * one, 100000, by decide, by push_cast; ring, rfl⟩
      exact hlow (halfRank_closed.2.2.trans (hnearest.mono (.self htop) (not_lt.mp hlarge)))
    have hnonneg := magnitude_nonneg (scaledUp rank)
    have hnonneg' := magnitude_nonneg (scaledUp (halvedRank rank))
    rw [abs_le] at hup hhalfUp ⊢
    constructor <;> linarith

/-! What is written for a count of decimals. -/

/-- No two counts have one double. -/
theorem decimalsRank_inj (h : count ≤ mostDecimals) (heq : decimalsRank other = decimalsRank count) :
    other = count := by
  have hmost : mostDecimals + 1 ≤ 10000 * fineLimit := by decide
  have hcount := whole_scaledUp_decimalsRank (h.trans mostDecimals_le)
  by_contra hne
  rcases Nat.lt_or_ge (mostDecimals + 1) other with hmore | hless
  · have hmono : decimalsRank (mostDecimals + 1) ≤ decimalsRank other :=
      nearestRank_mono (by decide) (Nat.mul_le_mul_right one (by omega))
    have hmono' : decimalsRank count ≤ decimalsRank mostDecimals :=
      nearestRank_mono (by decide) (Nat.mul_le_mul_right one h)
    have hclosed := decimalsRank_closed.1
    omega
  · rw [← heq, whole_scaledUp_decimalsRank (hless.trans hmost)] at hcount
    exact hne hcount

theorem toRat_shortest_decimalsRank (h : count ≤ mostDecimals) :
    (shortest .up false (decimalsRank count)).toRat = count / 10000 := by
  have htop : decimalsRank count ≤ topRank := nearestRank_le_topRank _ _
  by_cases hzero : decimalsRank count = 0
  · have hcount : 0 = count := decimalsRank_inj h (by rw [hzero, decimalsRank, Nat.zero_mul]; rfl)
    rw [hzero, ← hcount]
    simp [shortest, Decimal.toRat]
  · have hexponent := le_exponent_shortest .up false htop hzero
      (reaches_of_nearest (nearest_decimalsRank count)) (by decide)
    have hread := decimalRank_shortest htop .up false
    have hsign := negative_shortest .up false (decimalsRank count)
    generalize shortest .up false (decimalsRank count) = d at *
    obtain ⟨places, hplaces⟩ : ∃ places : Nat, d.exponent = -4 + places :=
      ⟨(d.exponent + 4).toNat, by omega⟩
    have hrat : d.toRat = (d.coefficient * 10 ^ places : Nat) / 10000 := by
      rw [Decimal.toRat, hsign, hplaces, zpow_add₀ (by norm_num)]
      push_cast
      norm_num
      ring
    have hnearest := nearest_decimalRank d.coefficient d.exponent
    have hvalue : (d.coefficient : ℚ) * 10 ^ d.exponent = d.toRat := by
      rw [Decimal.toRat, hsign]
      simp
    rw [hvalue, hread, hrat] at hnearest
    rw [hrat, decimalsRank_inj h ((nearest_decimalsRank _).unique hnearest)]

theorem toRat_decimal_magnitude (hrank : rank ≤ decimalsRank mostDecimals) {h : rank ≤ topRank} :
    (decimal (.signed false rank h)).toRat = whole (scaledUp rank) / 10000 := by
  obtain ⟨-, hlimit, -⟩ := decimalsRank_closed
  have hrounded : rounded (.signed false rank h) = .signed false (roundedRank rank) _ :=
    rounded_signed (hrank.trans_lt hlimit)
  have hfinite : roundedRank rank ≠ topRank := by
    obtain ⟨htop, -, -, hless⟩ := limitRank_closed
    have hmono := roundedRank_mono htop.le (hrank.trans hlimit.le)
    omega
  have hdecimals := roundedRank_eq_decimalsRank hrank
  have hcount := toRat_shortest_decimalsRank (whole_scaledUp_le_mostDecimals hrank)
  rw [← hdecimals] at hcount
  rw [decimal_of_rounded hrounded, ← hcount]
  by_cases hzero : roundedRank rank = 0
  · rw [if_pos (Or.inl hzero), hzero]
    rfl
  · rw [if_neg (not_or.mpr ⟨hzero, hfinite⟩)]

/-- A magnitude and its half are written as two counts of which one is nearly the double of the
other. -/
theorem decimal_halves {h : rank ≤ topRank} (hrank : rank ≤ decimalsRank mostDecimals) :
    ∃ count half, Halved count half ∧
      (decimal (.signed false rank h)).toRat = count / 10000 ∧
      (decimal ((Binary64.signed false rank h).mul (.ofQuotient 1 2))).toRat = half / 10000 := by
  have hfinite : rank ≠ topRank := by
    obtain ⟨-, hlimit, -⟩ := decimalsRank_closed
    have htop := limitRank_closed.1
    omega
  refine ⟨_, _, halved_whole_scaledUp hrank, toRat_decimal_magnitude hrank, ?_⟩
  rw [mul_half hfinite]
  exact toRat_decimal_magnitude ((halvedRank_le h).trans hrank)

end AnimationKit.Measure
