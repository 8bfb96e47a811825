import AnimationKit.Proofs.Binary64.Order
import AnimationKit.Proofs.Binary64.Sign

/-! The shortest decimal of a double reads back as that double. -/
namespace AnimationKit.Binary64

variable {num den other rank : Nat} {coefficient : Nat} {exponent : Int}

/-! Rounding sees a quotient, not how it is written. -/

theorem nearestNat_mul_left {k : Nat} (hk : 0 < k) :
    nearestNat (k * num) (k * den) = nearestNat num den := by
  have hbelow : 2 * (k * (num % den)) < k * den ↔ 2 * (num % den) < den := by
    rw [Nat.mul_left_comm, Nat.mul_lt_mul_left hk]
  have habove : k * den < 2 * (k * (num % den)) ↔ den < 2 * (num % den) := by
    rw [Nat.mul_left_comm, Nat.mul_lt_mul_left hk]
  simp only [nearestNat, Nat.mul_div_mul_left _ _ hk, Nat.mul_mod_mul_left, hbelow, habove]

theorem nearestRank_mul_left {k : Nat} (hk : 0 < k) :
    nearestRank (k * num) (k * den) = nearestRank num den := by
  rw [nearestRank_eq, nearestRank_eq, scaleOf, scaleOf, Nat.mul_div_mul_left _ _ hk, Nat.mul_assoc,
    nearestNat_mul_left hk]

theorem nearestRank_congr {num' den' : Nat} (hden : 0 < den) (hden' : 0 < den')
    (h : num * den' = num' * den) : nearestRank num den = nearestRank num' den' := by
  calc nearestRank num den = nearestRank (den' * num) (den' * den) :=
        (nearestRank_mul_left hden').symm
    _ = nearestRank (den * num') (den * den') := by
        rw [Nat.mul_comm den' num, h, Nat.mul_comm num' den, Nat.mul_comm den' den]
    _ = nearestRank num' den' := nearestRank_mul_left hden

/-! Above the middle of two neighbours a quotient rounds up. -/

theorem two_mul_le_nearestNat (num : Nat) (hden : 0 < den) :
    2 * num ≤ (2 * nearestNat num den + 1) * den := by
  have hdivision := Nat.div_add_mod num den
  have hremainder := Nat.mod_lt num hden
  have hquotient : nearestNat num den = num / den ∧ 2 * (num % den) ≤ den ∨
      nearestNat num den = num / den + 1 := by
    unfold nearestNat
    dsimp only
    split_ifs <;> omega
  generalize num / den = quotient at *
  generalize num % den = remainder at *
  rcases hquotient with ⟨h, hle⟩ | h
  · rw [h, Nat.add_mul, Nat.mul_assoc, Nat.mul_comm quotient den]
    omega
  · rw [h, Nat.add_mul, Nat.mul_assoc, Nat.add_mul, Nat.mul_comm quotient den]
    omega

/-- So many steps of a scale make at most the double at their place. -/
theorem mul_pow_le_units (scale steps : Nat) :
    steps * 2 ^ scale ≤ units (scale * binade + steps) := by
  have hpos : 0 < binade := by decide
  by_cases hlow : scale * binade + steps < binade
  · obtain rfl : scale = 0 := by
      by_contra hne
      have hle := Nat.le_mul_of_pos_left binade (Nat.pos_of_ne_zero hne)
      omega
    rw [units_of_lt hlow, Nat.zero_mul, Nat.zero_add, Nat.pow_zero, Nat.mul_one]
  · have hexponent : (scale * binade + steps) / binade = scale + steps / binade := by
      rw [Nat.add_comm, Nat.add_mul_div_right _ _ hpos, Nat.add_comm]
    have hrest : (scale * binade + steps) % binade = steps % binade := by
      rw [Nat.add_comm, Nat.add_mul_mod_self_right]
    rw [units_of_le (Nat.not_lt.mp hlow), hexponent, hrest]
    have hdivision := Nat.div_add_mod steps binade
    have hremainder := Nat.mod_lt steps hpos
    generalize steps / binade = k at *
    generalize steps % binade = t at *
    cases k with
    | zero =>
      -- Below its own binade a scale counts single steps, and the double stands at twice as many.
      obtain ⟨s, rfl⟩ : ∃ s, scale = s + 1 := by
        refine ⟨scale - 1, ?_⟩
        have hne : scale ≠ 0 := by
          rintro rfl
          omega
        omega
      have hsteps : steps * 2 ≤ binade + t := by omega
      calc steps * 2 ^ (s + 1) = steps * 2 * 2 ^ s := by rw [Nat.pow_succ']; ring
        _ ≤ (binade + t) * 2 ^ s := Nat.mul_le_mul_right _ hsteps
        _ = (binade + t) * 2 ^ (s + 1 + 0 - 1) := rfl
    | succ k =>
      have hpow : k + 1 ≤ 2 ^ k := Nat.lt_two_pow_self
      have hsteps : steps ≤ (binade + t) * 2 ^ k := by
        have hbinade : binade * (k + 1) ≤ binade * 2 ^ k := Nat.mul_le_mul_left _ hpow
        have ht : t ≤ t * 2 ^ k := Nat.le_mul_of_pos_right _ (by positivity)
        rw [Nat.add_mul]
        omega
      calc steps * 2 ^ scale ≤ (binade + t) * 2 ^ k * 2 ^ scale := Nat.mul_le_mul_right _ hsteps
        _ = (binade + t) * 2 ^ (scale + (k + 1) - 1) := by
          rw [Nat.mul_assoc, ← Nat.pow_add, Nat.add_comm k scale]
          rfl

theorem lt_nearestRank (hden : 0 < den) (htop : rank < topRank)
    (h : den * (units rank + units (rank + 1)) < 2 * num) : rank < nearestRank num den := by
  by_contra hnot
  rw [nearestRank_eq] at hnot
  generalize hscale : scaleOf num den = scale at hnot
  have hpos : 0 < den * 2 ^ scale := by positivity
  have hnearest := two_mul_le_nearestNat num hpos
  generalize nearestNat num (den * 2 ^ scale) = steps at hnot hnearest
  have hrank : scale * binade + steps ≤ rank := by omega
  have hbelow : steps * 2 ^ scale ≤ units rank :=
    (mul_pow_le_units scale steps).trans (units_mono (Nat.le_of_lt htop) hrank)
  have habove : (steps + 1) * 2 ^ scale ≤ units (rank + 1) :=
    (mul_pow_le_units scale (steps + 1)).trans (units_mono htop (by omega))
  have hsum : (2 * steps + 1) * (den * 2 ^ scale) ≤ den * (units rank + units (rank + 1)) := by
    calc (2 * steps + 1) * (den * 2 ^ scale)
        = den * (steps * 2 ^ scale + (steps + 1) * 2 ^ scale) := by ring
      _ ≤ den * (units rank + units (rank + 1)) :=
        Nat.mul_le_mul_left _ (Nat.add_le_add hbelow habove)
  omega

/-! Decimals. -/

theorem decimalRank_eq : decimalRank coefficient exponent =
    nearestRank (coefficient * 10 ^ exponent.toNat * one) (10 ^ (-exponent).toNat) := rfl

/-- Zeros behind the last digit do not count. -/
theorem decimalRank_mul_pow (coefficient : Nat) (exponent : Int) (count : Nat) :
    decimalRank (coefficient * 10 ^ count) (exponent - count) =
      decimalRank coefficient exponent := by
  rw [decimalRank_eq, decimalRank_eq]
  apply nearestRank_congr (by positivity) (by positivity)
  have hpow : 10 ^ count * 10 ^ (exponent - count).toNat * 10 ^ (-exponent).toNat =
      10 ^ exponent.toNat * 10 ^ (-(exponent - count)).toNat := by
    rw [← Nat.pow_add, ← Nat.pow_add, ← Nat.pow_add]
    congr 1
    omega
  calc coefficient * 10 ^ count * 10 ^ (exponent - count).toNat * one * 10 ^ (-exponent).toNat
      = coefficient * one *
          (10 ^ count * 10 ^ (exponent - count).toNat * 10 ^ (-exponent).toNat) := by ring
    _ = coefficient * 10 ^ exponent.toNat * one * 10 ^ (-(exponent - count)).toNat := by
      rw [hpow]
      ring

theorem nearestRank_of_lt (h : 2 * num < den) : nearestRank num den = 0 := by
  have hquotient : num / den = 0 := Nat.div_eq_of_lt (by omega)
  have hscale : scaleOf num den = 0 := by simp [scaleOf, hquotient]
  have hnearest : nearestNat num den = 0 := by
    have hremainder : num % den = num := Nat.mod_eq_of_lt (by omega)
    simp [nearestNat, hquotient, hremainder, h]
  rw [nearestRank_eq, hscale, Nat.pow_zero, Nat.mul_one, hnearest]
  rfl

theorem decimalRank_zero (exponent : Int) : decimalRank 0 exponent = 0 := by
  rw [decimalRank_eq, Nat.zero_mul, Nat.zero_mul]
  exact nearestRank_of_lt (by positivity)

theorem lt_pow_digits (d : Decimal) : d.coefficient < 10 ^ d.digits.length :=
  (Nat.length_toDigits_le_iff (by decide) Nat.length_toDigits_pos).mp (Nat.le_refl _)

theorem pow_digits_le {d : Decimal} (h : d.coefficient ≠ 0) :
    10 ^ (d.digits.length - 1) ≤ d.coefficient := by
  by_contra hlt
  by_cases hlength : d.digits.length - 1 = 0
  · rw [hlength, Nat.pow_zero] at hlt
    omega
  · have hshort := (Nat.length_toDigits_le_iff (by decide) (Nat.pos_of_ne_zero hlength)).mpr
      (Nat.not_le.mp hlt)
    have hpos : 0 < d.digits.length := Nat.length_toDigits_pos
    have hself : (Nat.toDigits 10 d.coefficient).length = d.digits.length := rfl
    omega

/-- Powers of ten beyond the least and the greatest double. -/
theorem powersOfTen_closed : 2 * one < Nat.pow 10 324 ∧ 2 * one ≤ 10 ^ 330 ∧
    units topRank ≤ 10 ^ 310 * one := by
  decide +kernel

/-- What is far below the least double is read as zero. -/
theorem decimalRank_of_tiny {d : Decimal} (h : d.pointPlace < -330) :
    decimalRank d.coefficient d.exponent = 0 := by
  have hplace : d.pointPlace = d.digits.length + d.exponent := rfl
  have hexponent : d.exponent.toNat = 0 := by omega
  obtain ⟨places, hplaces, hone⟩ : ∃ places, places = 330 ∧ 2 * one ≤ 10 ^ places :=
    ⟨330, rfl, powersOfTen_closed.2.1⟩
  rw [decimalRank_eq, hexponent, Nat.pow_zero, Nat.mul_one]
  apply nearestRank_of_lt
  calc 2 * (d.coefficient * one) = d.coefficient * (2 * one) := by ring
    _ ≤ d.coefficient * 10 ^ places := Nat.mul_le_mul_left _ hone
    _ < 10 ^ d.digits.length * 10 ^ places :=
      Nat.mul_lt_mul_of_pos_right (lt_pow_digits d) (by positivity)
    _ = 10 ^ (d.digits.length + places) := (Nat.pow_add _ _ _).symm
    _ ≤ 10 ^ (-d.exponent).toNat := Nat.pow_le_pow_right (by decide) (by omega)

/-- What is far above the greatest double is read as infinite. -/
theorem decimalRank_of_huge {d : Decimal} (hne : d.coefficient ≠ 0) (h : 310 < d.pointPlace) :
    decimalRank d.coefficient d.exponent = topRank := by
  have hplace : d.pointPlace = d.digits.length + d.exponent := rfl
  have hpos : 0 < d.digits.length := Nat.length_toDigits_pos
  obtain ⟨places, hplaces, htop⟩ : ∃ places, places = 310 ∧ units topRank ≤ 10 ^ places * one :=
    ⟨310, rfl, powersOfTen_closed.2.2⟩
  have hpow : 10 ^ places * 10 ^ (-d.exponent).toNat ≤ d.coefficient * 10 ^ d.exponent.toNat := by
    calc 10 ^ places * 10 ^ (-d.exponent).toNat = 10 ^ (places + (-d.exponent).toNat) :=
          (Nat.pow_add _ _ _).symm
      _ ≤ 10 ^ (d.digits.length - 1 + d.exponent.toNat) :=
        Nat.pow_le_pow_right (by decide) (by omega)
      _ = 10 ^ (d.digits.length - 1) * 10 ^ d.exponent.toNat := Nat.pow_add _ _ _
      _ ≤ d.coefficient * 10 ^ d.exponent.toNat := Nat.mul_le_mul_right _ (pow_digits_le hne)
  have hmono : units topRank * 10 ^ (-d.exponent).toNat ≤
      d.coefficient * 10 ^ d.exponent.toNat * one := by
    calc units topRank * 10 ^ (-d.exponent).toNat
        ≤ 10 ^ places * one * 10 ^ (-d.exponent).toNat := Nat.mul_le_mul_right _ htop
      _ = 10 ^ places * 10 ^ (-d.exponent).toNat * one := by ring
      _ ≤ d.coefficient * 10 ^ d.exponent.toNat * one := Nat.mul_le_mul_right _ hpow
  have hden : 0 < 10 ^ (-d.exponent).toNat := by positivity
  have hle := nearestRank_mono hden hmono
  rw [nearestRank_units (Nat.le_refl _) hden] at hle
  exact Nat.le_antisymm (nearestRank_le_topRank _ _) hle

/-- Looking at the number of digits first only saves work. -/
theorem ofDecimal_eq (d : Decimal) : ofDecimal d =
    .signed d.negative (decimalRank d.coefficient d.exponent) (Nat.min_le_right _ _) := by
  unfold ofDecimal
  split
  · rename_i h
    have hzero : decimalRank d.coefficient d.exponent = 0 := by
      rcases h with h | h
      · rw [h, decimalRank_zero]
      · exact decimalRank_of_tiny h
    simp only [hzero]
  · rename_i hnot
    obtain ⟨hne, -⟩ := not_or.mp hnot
    split
    · rename_i h
      simp only [infinity, decimalRank_of_huge hne h]
    · rfl

/-- The place of the point of a decimal that is neither read as zero nor as infinite. -/
theorem pointPlace_bounds {d : Decimal} (hzero : decimalRank d.coefficient d.exponent ≠ 0)
    (htop : decimalRank d.coefficient d.exponent ≠ topRank) :
    -330 ≤ d.pointPlace ∧ d.pointPlace ≤ 310 := by
  constructor
  · by_contra h
    exact hzero (decimalRank_of_tiny (by omega))
  · by_contra h
    refine htop (decimalRank_of_huge ?_ (by omega))
    intro hcoefficient
    rw [hcoefficient, decimalRank_zero] at hzero
    exact hzero rfl

theorem isFinite_signed {negative : Bool} {h : rank ≤ topRank} :
    (signed negative rank h).isFinite = true ↔ rank ≠ topRank := by
  rw [isFinite, decide_eq_true_eq]
  omega

/-! The search for the shortest decimal. -/

/-- Below every double a grid that is fine enough has a number that reads back. -/
theorem nearestRank_below {parts : Nat} (hfine : 2 * one < parts) (h : rank ≤ topRank) :
    nearestRank (units rank * parts / one * one) parts = rank := by
  have hden : 0 < parts := by omega
  have hbelow := Nat.div_mul_le_self (units rank * parts) one
  have habove : units rank * parts < units rank * parts / one * one + one :=
    Nat.lt_div_mul_add one_pos
  generalize units rank * parts / one * one = written at hbelow habove
  apply Nat.le_antisymm
  · have hmono := nearestRank_mono hden hbelow
    rwa [nearestRank_units h hden] at hmono
  · cases rank with
    | zero => exact Nat.zero_le _
    | succ rank =>
      apply lt_nearestRank hden h
      have hunits : units rank + 1 ≤ units (rank + 1) := units_lt_units h (Nat.lt_succ_self rank)
      generalize units rank = lower at *
      generalize units (rank + 1) = upper at *
      have hmul : (lower + 1) * parts ≤ upper * parts := Nat.mul_le_mul_right _ hunits
      rw [Nat.add_mul, Nat.one_mul] at hmul
      rw [Nat.mul_add, Nat.mul_comm parts lower, Nat.mul_comm parts upper]
      omega

theorem decimalRank_finest (h : rank ≤ topRank) :
    decimalRank (units rank * Nat.pow 10 324 / one) finestPower = rank := by
  obtain ⟨places, hplaces, hfine⟩ : ∃ places, 324 = places ∧ 2 * one < Nat.pow 10 places :=
    ⟨324, rfl, powersOfTen_closed.1⟩
  have hwhole : finestPower.toNat = 0 := rfl
  have hparts : (-finestPower).toNat = 324 := rfl
  have hunit : Nat.pow 10 0 = 1 := rfl
  rw [decimalRank, hwhole, hparts, hunit, Nat.mul_one, hplaces]
  exact nearestRank_below hfine h

theorem decimalRank_nearestOnGrid {tie : Tie} (h : nearestOnGrid? tie rank exponent =
    some coefficient) : decimalRank coefficient exponent = rank := by
  unfold nearestOnGrid? at h
  dsimp only at h
  split_ifs at h with hbelow habove
  · rw [Bool.and_eq_true, beq_iff_eq] at hbelow
    rw [← Option.some.inj h]
    exact hbelow.1
  · rw [beq_iff_eq] at habove
    rw [← Option.some.inj h]
    exact habove

theorem decimalRank_firstOnGrids (h : rank ≤ topRank) (tie : Tie) (negative : Bool) (count : Nat) :
    decimalRank (firstOnGrids tie negative rank count).coefficient
      (firstOnGrids tie negative rank count).exponent = rank := by
  induction count with
  | zero => exact decimalRank_finest h
  | succ count ih =>
    rw [firstOnGrids]
    cases hgrid : nearestOnGrid? tie rank (finestPower + count) with
    | none => exact ih
    | some coefficient => exact decimalRank_nearestOnGrid hgrid

theorem decimalRank_shortest (h : rank ≤ topRank) (tie : Tie) (negative : Bool) :
    decimalRank (shortest tie negative rank).coefficient (shortest tie negative rank).exponent =
      rank := by
  unfold shortest
  split
  · rename_i hzero
    rw [hzero, decimalRank_zero]
  · exact decimalRank_firstOnGrids h tie negative _

theorem negative_shortest (tie : Tie) (negative : Bool) (rank : Nat) :
    (shortest tie negative rank).negative = negative := by
  rw [shortest_sign]
  rfl

/-- Only zero has a shortest decimal without digits. -/
theorem shortest_of_coefficient {tie : Tie} {negative : Bool} (h : rank ≤ topRank)
    (hcoefficient : (shortest tie negative rank).coefficient = 0) :
    shortest tie negative rank = ⟨negative, 0, 0⟩ := by
  have hrank := decimalRank_shortest h tie negative
  rw [hcoefficient, decimalRank_zero] at hrank
  rw [← hrank, shortest, if_pos rfl]

/-- The shortest decimal of a double denotes that double. -/
theorem ofDecimal_shortest (tie : Tie) (negative : Bool) (h : rank ≤ topRank) :
    ofDecimal (shortest tie negative rank) = .signed negative rank h := by
  rw [ofDecimal_eq]
  simp only [negative_shortest, decimalRank_shortest h]

end AnimationKit.Binary64
