import AnimationKit.Proofs.Binary64.Nearest
import AnimationKit.Proofs.Decimal.Reading

/-!
The shortest decimal of a double stands on the coarsest grid that has a number reading back as it,
so its last digit behind the point is never a zero.
-/
namespace AnimationKit.Binary64

variable {rank coefficient other count place : Nat} {exponent : Int} {tie : Tie} {negative : Bool}

/-- A decimal is read as the double nearest to it. -/
theorem nearest_decimalRank (coefficient : Nat) (exponent : Int) :
    Nearest (coefficient * (10 : ℚ) ^ exponent) (decimalRank coefficient exponent) := by
  refine ⟨coefficient * 10 ^ exponent.toNat * one, 10 ^ (-exponent).toNat, by positivity, ?_,
    decimalRank_eq.symm⟩
  have hpower : (10 : ℚ) ^ exponent.toNat = 10 ^ exponent * 10 ^ (-exponent).toNat := by
    rw [← zpow_natCast, ← zpow_natCast, ← zpow_add₀ (by norm_num)]
    congr 1
    omega
  rw [Nat.cast_mul, Nat.cast_mul, Nat.cast_pow, Nat.cast_pow, Nat.cast_ofNat, hpower]
  ring

/-- The grid of this power of ten has a number that reads back as the double. -/
def Reaches (rank : Nat) (exponent : Int) : Prop :=
  ∃ coefficient, decimalRank coefficient exponent = rank

/-- If any number of a grid reads back, one of the neighbours of the double does. -/
theorem nearestOnGrid_of_reaches (h : rank ≤ topRank) (hreaches : Reaches rank exponent)
    (tie : Tie) : ∃ coefficient, nearestOnGrid? tie rank exponent = some coefficient := by
  obtain ⟨coefficient, hread⟩ := hreaches
  have hpos : 0 < one * 10 ^ exponent.toNat := Nat.mul_pos one_pos (by positivity)
  -- The double lies between its neighbours on the grid.
  have hbelow := Nat.div_mul_le_self (units rank * 10 ^ (-exponent).toNat) (one * 10 ^ exponent.toNat)
  have habove := Nat.lt_div_mul_add hpos (a := units rank * 10 ^ (-exponent).toNat)
  obtain ⟨below, hdiv⟩ : ∃ below, units rank * 10 ^ (-exponent).toNat /
      (one * 10 ^ exponent.toNat) = below := ⟨_, rfl⟩
  rw [hdiv] at hbelow habove
  have hden : 0 < 10 ^ (-exponent).toNat := by positivity
  have hself := nearestRank_units h hden
  have hlow : decimalRank below exponent ≤ rank := by
    rw [← hself, decimalRank_eq]
    exact nearestRank_mono hden (by linarith)
  have hhigh : rank ≤ decimalRank (below + 1) exponent := by
    rw [decimalRank_eq]
    conv_lhs => rw [← hself]
    refine nearestRank_mono hden ?_
    calc units rank * 10 ^ (-exponent).toNat
        ≤ below * (one * 10 ^ exponent.toNat) + one * 10 ^ exponent.toNat := habove.le
      _ = (below + 1) * 10 ^ exponent.toNat * one := by ring
  have hmono {a b : Nat} (hle : a ≤ b) : decimalRank a exponent ≤ decimalRank b exponent := by
    rw [decimalRank_eq, decimalRank_eq]
    exact nearestRank_mono hden (Nat.mul_le_mul_right _ (Nat.mul_le_mul_right _ hle))
  have hneighbour : decimalRank below exponent = rank ∨ decimalRank (below + 1) exponent = rank := by
    rcases Nat.lt_or_ge below coefficient with hlt | hge
    · exact Or.inr (Nat.le_antisymm (hread ▸ hmono hlt) hhigh)
    · exact Or.inl (Nat.le_antisymm hlow (hread ▸ hmono hge))
  have hquotient : units rank * Nat.pow 10 (-exponent).toNat / (one * Nat.pow 10 exponent.toNat) =
      below := hdiv
  unfold nearestOnGrid?
  dsimp only
  rw [hquotient]
  rcases hneighbour with hreads | hreads
  · by_cases hother : decimalRank (below + 1) exponent = rank
    · split_ifs
      · exact ⟨_, rfl⟩
      · exact ⟨_, rfl⟩
      · simp_all
    · simp [hreads, hother]
  · split_ifs
    · exact ⟨_, rfl⟩
    · exact ⟨_, rfl⟩
    · simp_all

theorem finestPower_le_firstOnGrids :
    finestPower ≤ (firstOnGrids tie negative rank count).exponent := by
  induction count with
  | zero => exact le_rfl
  | succ count ih =>
    rw [firstOnGrids]
    cases nearestOnGrid? tie rank (finestPower + count) with
    | none => exact ih
    | some coefficient =>
      simp only [Option.map_some, Option.getD_some]
      omega

/-- The search ends no later than at a grid with a number that reads back. -/
theorem le_firstOnGrids (h : rank ≤ topRank) (hreaches : Reaches rank (finestPower + place))
    (hplace : place < count) :
    finestPower + place ≤ (firstOnGrids tie negative rank count).exponent := by
  induction count with
  | zero => omega
  | succ count ih =>
    rw [firstOnGrids]
    cases hgrid : nearestOnGrid? tie rank (finestPower + count) with
    | none =>
      have hne : place ≠ count := by
        rintro rfl
        obtain ⟨coefficient, hsome⟩ := nearestOnGrid_of_reaches h hreaches tie
        rw [hsome] at hgrid
        cases hgrid
      exact ih (by omega)
    | some coefficient =>
      simp only [Option.map_some, Option.getD_some]
      omega

/-- No grid up to that of the whole numbers is coarser than that of the shortest decimal. -/
theorem le_exponent_shortest (tie : Tie) (negative : Bool) (h : rank ≤ topRank) (hne : rank ≠ 0)
    (hreaches : Reaches rank exponent) (hexponent : exponent ≤ 0) :
    exponent ≤ (shortest tie negative rank).exponent := by
  rw [shortest, if_neg hne]
  by_cases hfine : exponent ≤ finestPower
  · exact hfine.trans finestPower_le_firstOnGrids
  · have hpower : finestPower = -324 := rfl
    obtain ⟨place, hplace⟩ : ∃ place : Nat, exponent = finestPower + place :=
      ⟨(exponent - finestPower).toNat, by omega⟩
    rw [hplace] at hreaches ⊢
    exact le_firstOnGrids h hreaches (by omega)

/-- A digit behind the point that is a zero would be left away. -/
theorem coefficient_shortest_mod (h : rank ≤ topRank) (hne : rank ≠ 0)
    (hexponent : (shortest tie negative rank).exponent < 0) :
    (shortest tie negative rank).coefficient % 10 ≠ 0 := by
  intro hmod
  have hread := decimalRank_shortest h tie negative
  have hcoefficient : (shortest tie negative rank).coefficient =
      (shortest tie negative rank).coefficient / 10 * 10 ^ 1 := by omega
  have hreaches : Reaches rank ((shortest tie negative rank).exponent + 1) := by
    refine ⟨(shortest tie negative rank).coefficient / 10, ?_⟩
    have hshift := decimalRank_mul_pow ((shortest tie negative rank).coefficient / 10)
      ((shortest tie negative rank).exponent + 1) 1
    rw [← hcoefficient, Nat.cast_one, Int.add_sub_cancel, hread] at hshift
    exact hshift.symm
  have hle := le_exponent_shortest tie negative h hne hreaches (by omega)
  omega

theorem coefficient_shortest_ne_zero (h : rank ≤ topRank) (hne : rank ≠ 0) :
    (shortest tie negative rank).coefficient ≠ 0 := by
  intro hzero
  have hread := decimalRank_shortest h tie negative
  rw [hzero, decimalRank_zero] at hread
  exact hne hread.symm

end AnimationKit.Binary64
