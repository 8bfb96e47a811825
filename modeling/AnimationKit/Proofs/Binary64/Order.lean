import AnimationKit.Proofs.Binary64.Rounding

/-! Rounding keeps the order of the numbers, and so does a subtraction of the same number. -/
namespace AnimationKit.Binary64

variable {num den other rank : Nat}

theorem quotient_le_nearestNat (num den : Nat) : num / den ≤ nearestNat num den := by
  unfold nearestNat
  dsimp only
  split
  · exact Nat.le_refl _
  · split <;> omega

theorem nearestNat_le_quotient (num den : Nat) : nearestNat num den ≤ num / den + 1 := by
  unfold nearestNat
  dsimp only
  split
  · omega
  · split <;> omega

theorem nearestNat_mono (den : Nat) (h : num ≤ other) : nearestNat num den ≤ nearestNat other den := by
  have hquotient : num / den ≤ other / den := Nat.div_le_div_right h
  rcases Nat.lt_or_eq_of_le hquotient with hlt | heq
  · have hnum := nearestNat_le_quotient num den
    have hother := quotient_le_nearestNat other den
    omega
  · -- With the same quotient the remainders are in order, and so are the roundings up.
    have hremainder : num % den ≤ other % den := by
      have hnum := Nat.div_add_mod num den
      have hother := Nat.div_add_mod other den
      rw [heq] at hnum
      omega
    unfold nearestNat
    dsimp only
    rw [heq]
    split_ifs <;> omega

theorem nearestNat_le {n : Nat} (hden : 0 < den) (h : num ≤ n * den) : nearestNat num den ≤ n := by
  have hmono := nearestNat_mono den h
  rwa [nearestNat_mul hden] at hmono

theorem le_nearestNat {n : Nat} (hden : 0 < den) (h : n * den ≤ num) : n ≤ nearestNat num den := by
  have hmono := nearestNat_mono den h
  rwa [nearestNat_mul hden] at hmono

/-- The exponent of the steps in which a quotient is measured. -/
def scaleOf (num den : Nat) : Nat := (num / den).log2 - 52

theorem nearestRank_eq : nearestRank num den =
    min (scaleOf num den * binade + nearestNat num (den * 2 ^ scaleOf num den)) topRank := rfl

theorem scaleOf_mono (den : Nat) (h : num ≤ other) : scaleOf num den ≤ scaleOf other den := by
  have hquotient : num / den ≤ other / den := Nat.div_le_div_right h
  have hlog : (num / den).log2 ≤ (other / den).log2 := by
    by_cases hzero : num / den = 0
    · simp [hzero]
    · have hne : other / den ≠ 0 := Nat.ne_of_gt ((Nat.pos_of_ne_zero hzero).trans_le hquotient)
      rw [Nat.le_log2 hne]
      exact (Nat.log2_self_le hzero).trans hquotient
  unfold scaleOf
  omega

/-- No quotient has more steps than two binades. -/
theorem nearestNat_le_binades (num : Nat) (hden : 0 < den) :
    nearestNat num (den * 2 ^ scaleOf num den) ≤ 2 * binade := by
  apply nearestNat_le (by positivity)
  have hlt : num / den < 2 ^ (53 + scaleOf num den) := by
    by_cases hzero : num / den = 0
    · rw [hzero]
      positivity
    · rw [← Nat.log2_lt hzero]
      unfold scaleOf
      omega
  have hle := Nat.le_of_lt ((Nat.div_lt_iff_lt_mul hden).mp hlt)
  calc num ≤ 2 ^ (53 + scaleOf num den) * den := hle
    _ = 2 * binade * (den * 2 ^ scaleOf num den) := by
      rw [binade_eq, Nat.pow_add]
      ring

/-- Above the first binades a quotient has at least the steps of one. -/
theorem binade_le_nearestNat (hden : 0 < den) (h : 0 < scaleOf num den) :
    binade ≤ nearestNat num (den * 2 ^ scaleOf num den) := by
  apply le_nearestNat (by positivity)
  have hne : num / den ≠ 0 := by
    intro hzero
    simp [scaleOf, hzero] at h
  have hle : 2 ^ (52 + scaleOf num den) ≤ num / den := by
    rw [← Nat.le_log2 hne]
    unfold scaleOf at h ⊢
    omega
  calc binade * (den * 2 ^ scaleOf num den) = 2 ^ (52 + scaleOf num den) * den := by
        rw [binade_eq, Nat.pow_add]
        ring
    _ ≤ num := (Nat.le_div_iff_mul_le hden).mp hle

theorem nearestRank_mono (hden : 0 < den) (h : num ≤ other) :
    nearestRank num den ≤ nearestRank other den := by
  rw [nearestRank_eq, nearestRank_eq]
  suffices hsteps : scaleOf num den * binade + nearestNat num (den * 2 ^ scaleOf num den) ≤
      scaleOf other den * binade + nearestNat other (den * 2 ^ scaleOf other den) by omega
  rcases Nat.lt_or_eq_of_le (scaleOf_mono den h) with hlt | heq
  · have hbelow := nearestNat_le_binades num hden
    have hpos : 0 < scaleOf other den := Nat.zero_lt_of_lt hlt
    have habove := binade_le_nearestNat hden hpos
    have hscale : (scaleOf num den + 1) * binade ≤ scaleOf other den * binade :=
      Nat.mul_le_mul_right _ hlt
    rw [Nat.add_mul] at hscale
    omega
  · rw [heq]
    exact Nat.add_le_add_left (nearestNat_mono _ h) _

theorem nearestRank_le_topRank (num den : Nat) : nearestRank num den ≤ topRank := Nat.min_le_right _ _

/-- Greater ranks have greater magnitudes. -/
theorem units_lt_units {other : Nat} (hle : other ≤ topRank) (h : rank < other) :
    units rank < units other := by
  by_contra hnot
  have hmono := nearestRank_mono Nat.one_pos (Nat.le_of_not_lt hnot)
  rw [← Nat.mul_one (units other), ← Nat.mul_one (units rank),
    nearestRank_units hle Nat.one_pos, nearestRank_units (by omega) Nat.one_pos] at hmono
  omega

theorem units_mono {other : Nat} (hle : other ≤ topRank) (h : rank ≤ other) :
    units rank ≤ units other := by
  rcases Nat.lt_or_eq_of_le h with hlt | rfl
  · exact Nat.le_of_lt (units_lt_units hle hlt)
  · exact Nat.le_refl _

/-! The order with signs. -/

/-- The place of the double nearest to a whole number of units. -/
def nearestPlace (n : Int) : Int :=
  if n < 0 then -(nearestRank n.natAbs 1 : Int) else nearestRank n.natAbs 1

theorem nearestPlace_mono {n m : Int} (h : n ≤ m) : nearestPlace n ≤ nearestPlace m := by
  unfold nearestPlace
  split <;> split
  · have hmono := nearestRank_mono Nat.one_pos (show m.natAbs ≤ n.natAbs by omega)
    omega
  · omega
  · omega
  · have hmono := nearestRank_mono Nat.one_pos (show n.natAbs ≤ m.natAbs by omega)
    omega

theorem nearestPlace_le_topRank (n : Int) : nearestPlace n ≤ topRank := by
  have hle := nearestRank_le_topRank n.natAbs 1
  unfold nearestPlace
  split <;> omega

theorem neg_topRank_le_nearestPlace (n : Int) : -(topRank : Int) ≤ nearestPlace n := by
  have hle := nearestRank_le_topRank n.natAbs 1
  unfold nearestPlace
  split <;> omega

/-- The place of a sign and a rank. -/
def signedPlace (negative : Bool) (rank : Nat) : Int := if negative then -(rank : Int) else rank

theorem place?_signed {negative : Bool} {h : rank ≤ topRank} :
    (signed negative rank h).place? = some (signedPlace negative rank) := rfl

theorem place?_ofUnits {negative : Bool} :
    (ofUnits negative num den).place? = some (signedPlace negative (nearestRank num den)) := rfl

theorem signedUnits_mono {n m : Bool} {a b : Nat} (ha : a ≤ topRank) (hb : b ≤ topRank)
    (h : signedPlace n a ≤ signedPlace m b) : signedUnits n a ≤ signedUnits m b := by
  unfold signedPlace at h
  unfold signedUnits
  cases n <;> cases m <;> simp only [Bool.false_eq_true, if_true, if_false] at h ⊢
  · have hunits := units_mono hb (show a ≤ b by omega)
    omega
  · have hzero : units 0 = 0 := units_of_lt (by decide)
    obtain rfl : a = 0 := by omega
    obtain rfl : b = 0 := by omega
    omega
  · omega
  · have hunits := units_mono ha (show b ≤ a by omega)
    omega

/-- A difference of finite numbers is rounded from its exact value. -/
theorem place?_sub {n m : Bool} {a b : Nat} {ha : a ≤ topRank} {hb : b ≤ topRank}
    (hfinite : a ≠ topRank) (hfinite' : b ≠ topRank) :
    ((signed n a ha).sub (signed m b hb)).place? =
      some (nearestPlace (signedUnits n a - signedUnits m b)) := by
  have hnearest : nearestPlace 0 = 0 := by decide +kernel
  unfold sub
  dsimp only
  rw [if_neg hfinite, if_neg hfinite']
  split
  · rename_i hzero
    rw [hzero, hnearest, place?_signed]
    cases (n && !m && a == 0) <;> rfl
  · rw [place?_ofUnits]
    simp only [signedPlace, nearestPlace, decide_eq_true_eq]

theorem place?_infinity_sub {n m : Bool} {b : Nat} {ha : topRank ≤ topRank} {hb : b ≤ topRank}
    (hfinite : b ≠ topRank) :
    ((signed n topRank ha).sub (signed m b hb)).place? = some (signedPlace n topRank) := by
  simp [sub, hfinite, place?_signed]

/-- Infinity less an infinity of the same sign is no number; all else less it is its opposite. -/
theorem place?_sub_infinity {n m : Bool} {a : Nat} {ha : a ≤ topRank} {hb : topRank ≤ topRank} :
    ((signed n a ha).sub (signed m topRank hb)).place? =
      if a = topRank ∧ n = m then none else some (signedPlace (!m) topRank) := by
  by_cases h : a = topRank
  · subst h
    cases n <;> cases m <;> rfl
  · simp [sub, h, place?_signed]

theorem abs_signedPlace_le (negative : Bool) (h : rank ≤ topRank) :
    -(topRank : Int) ≤ signedPlace negative rank ∧ signedPlace negative rank ≤ topRank := by
  cases negative <;> simp only [signedPlace, Bool.false_eq_true, if_true, if_false] <;> omega

/-- A number less a finite one: the smaller the number, the lower the place. -/
theorem place?_sub_mono {n m k : Bool} {a b c : Nat} (ha : a ≤ topRank) (hb : b ≤ topRank)
    (hc : c ≤ topRank) (hfinite : c ≠ topRank) (hle : signedPlace n a ≤ signedPlace m b) :
    ∃ p q, ((signed n a ha).sub (signed k c hc)).place? = some p ∧
      ((signed m b hb).sub (signed k c hc)).place? = some q ∧ p ≤ q := by
  by_cases hx : a = topRank
  · subst hx
    by_cases hy : b = topRank
    · subst hy
      exact ⟨_, _, place?_infinity_sub hfinite, place?_infinity_sub hfinite, hle⟩
    · refine ⟨_, _, place?_infinity_sub hfinite, place?_sub hy hfinite, ?_⟩
      have hlow := neg_topRank_le_nearestPlace (signedUnits m b - signedUnits k c)
      cases n with
      | true => exact hlow
      | false => cases m <;> simp [signedPlace] at hle <;> omega
  · by_cases hy : b = topRank
    · subst hy
      refine ⟨_, _, place?_sub hx hfinite, place?_infinity_sub hfinite, ?_⟩
      have hhigh := nearestPlace_le_topRank (signedUnits n a - signedUnits k c)
      cases m with
      | false => exact hhigh
      | true => cases n <;> simp [signedPlace] at hle <;> omega
    · refine ⟨_, _, place?_sub hx hfinite, place?_sub hy hfinite, ?_⟩
      exact nearestPlace_mono (Int.sub_le_sub_right (signedUnits_mono ha hb hle) _)

/-- Less than a bound stays less when the number that is taken from gets smaller. -/
theorem lt_sub_of_le {x y z w : Binary64} (hle : x.le y = true) (hlt : (y.sub z).lt w = true) :
    (x.sub z).lt w = true := by
  cases y with
  | nan => cases hlt
  | signed m b hb =>
  cases x with
  | nan => cases hle
  | signed n a ha =>
  cases z with
  | nan => cases hlt
  | signed k c hc =>
  cases w with
  | nan => simp [lt, place?] at hlt
  | signed l d hd =>
  simp only [le, place?_signed, decide_eq_true_eq] at hle
  simp only [lt, place?_signed] at hlt ⊢
  by_cases hfinite : c = topRank
  · -- The difference is below a bound only if it is minus infinity.
    subst hfinite
    have hbound := (abs_signedPlace_le l hd).2
    rw [place?_sub_infinity] at hlt ⊢
    by_cases hy : b = topRank ∧ m = k
    · simp [hy] at hlt
    · rw [if_neg hy] at hlt
      simp only [decide_eq_true_eq] at hlt
      have hx : ¬ (a = topRank ∧ n = k) := by
        rintro ⟨rfl, rfl⟩
        cases n <;> cases m <;> simp [signedPlace] at hlt hle hy <;> omega
      rw [if_neg hx]
      simpa using hlt
  · obtain ⟨p, q, hp, hq, hpq⟩ := place?_sub_mono ha hb hc hfinite hle
    rw [hp]
    rw [hq] at hlt
    simp only [decide_eq_true_eq] at hlt ⊢
    omega

end AnimationKit.Binary64
