import AnimationKit.Proofs.Binary64.Order
import Mathlib.Algebra.Order.Field.Rat
import Mathlib.Order.Interval.Set.Defs

/-!
The exact numbers that doubles stand for. A comparison is one of these numbers, a change of sign
changes theirs, and a range of numbers holds neither NaN nor an infinity.
-/
namespace AnimationKit.Binary64

variable {x y : Binary64} {p q : ℚ} {n m : Bool} {a b : Nat}

/-- The number that a double stands for; NaN and the infinities stand for none. -/
def toRat? : Binary64 → Option ℚ
  | .nan => none
  | .signed negative rank _ =>
    if rank = topRank then none else some ((signedUnits negative rank : ℚ) / (one : ℚ))

/-- The double stands for a number of this range. -/
def Within (x : Binary64) (range : Set ℚ) : Prop := ∃ q, x.toRat? = some q ∧ q ∈ range

theorem Within.mono {range other : Set ℚ} (h : x.Within range) (hsub : range ⊆ other) :
    x.Within other := by
  obtain ⟨q, hq, hmem⟩ := h
  exact ⟨q, hq, hsub hmem⟩

theorem one_pos_rat : (0 : ℚ) < (one : ℚ) := by
  exact_mod_cast one_pos

theorem toRat?_eq_some (h : x.toRat? = some q) :
    ∃ negative rank hrank, x = .signed negative rank hrank ∧ rank ≠ topRank ∧
      q = (signedUnits negative rank : ℚ) / (one : ℚ) := by
  cases x with
  | nan => simp [toRat?] at h
  | signed negative rank hrank =>
    simp only [toRat?] at h
    split at h
    · simp at h
    · rename_i hfinite
      exact ⟨negative, rank, hrank, rfl, hfinite, (Option.some.inj h).symm⟩

theorem toRat?_signed {h : a ≤ topRank} (hfinite : a ≠ topRank) :
    (signed n a h).toRat? = some ((signedUnits n a : ℚ) / (one : ℚ)) := if_neg hfinite

theorem isFinite_iff : x.isFinite = true ↔ x.Within .univ := by
  cases x with
  | nan => simp [isFinite, Within, toRat?]
  | signed negative rank h =>
    simp only [isFinite, decide_eq_true_eq, Within, Set.mem_univ, and_true]
    constructor
    · intro hlt
      exact ⟨_, toRat?_signed (Nat.ne_of_lt hlt)⟩
    · rintro ⟨q, hq⟩
      obtain ⟨_, _, _, hx, hfinite, -⟩ := toRat?_eq_some hq
      obtain ⟨-, rfl⟩ := Binary64.signed.inj hx
      omega

/-! Order. -/

theorem units_pos (h : a ≤ topRank) (hpos : 0 < a) : 0 < units a := by
  have hlt := units_lt_units h hpos
  omega

theorem signedUnits_lt (ha : a ≤ topRank) (hb : b ≤ topRank)
    (h : signedPlace n a < signedPlace m b) : signedUnits n a < signedUnits m b := by
  unfold signedPlace at h
  unfold signedUnits
  cases n <;> cases m <;> simp only [Bool.false_eq_true, if_true, if_false] at h ⊢
  · have hunits := units_lt_units hb (show a < b by omega)
    omega
  · omega
  · -- One of the two is not zero.
    rcases Nat.eq_zero_or_pos a with hzero | hpos
    · have hunits := units_pos hb (show 0 < b by omega)
      omega
    · have hunits := units_pos ha hpos
      omega
  · have hunits := units_lt_units ha (show b < a by omega)
    omega

theorem signedUnits_le_iff (ha : a ≤ topRank) (hb : b ≤ topRank) :
    signedUnits n a ≤ signedUnits m b ↔ signedPlace n a ≤ signedPlace m b := by
  refine ⟨fun h => ?_, signedUnits_mono ha hb⟩
  by_contra hnot
  exact absurd h (Int.not_le.mpr (signedUnits_lt hb ha (Int.not_le.mp hnot)))

theorem le_iff (hx : x.toRat? = some p) (hy : y.toRat? = some q) : x.le y = true ↔ p ≤ q := by
  obtain ⟨n, a, ha, rfl, -, rfl⟩ := toRat?_eq_some hx
  obtain ⟨m, b, hb, rfl, -, rfl⟩ := toRat?_eq_some hy
  rw [div_le_div_iff_of_pos_right one_pos_rat, Int.cast_le, signedUnits_le_iff ha hb]
  simp only [le, place?_signed, decide_eq_true_eq]

theorem lt_iff (hx : x.toRat? = some p) (hy : y.toRat? = some q) : x.lt y = true ↔ p < q := by
  have hle := le_iff hy hx
  obtain ⟨n, a, ha, rfl, -, rfl⟩ := toRat?_eq_some hx
  obtain ⟨m, b, hb, rfl, -, rfl⟩ := toRat?_eq_some hy
  rw [← not_le, ← hle]
  simp only [lt, le, place?_signed, decide_eq_true_eq, Int.not_le]

theorem toRat?_abs (h : x.toRat? = some q) : x.abs.toRat? = some |q| := by
  obtain ⟨n, a, ha, rfl, hfinite, rfl⟩ := toRat?_eq_some h
  have hunits : signedUnits false a = |signedUnits n a| := by
    cases n <;> simp [signedUnits]
  have hquotient (p unit : ℚ) (hpos : 0 < unit) : |p| / unit = |p / unit| := by
    simp [div_eq_mul_inv, abs_of_pos hpos]
  rw [abs, toRat?_signed hfinite, hunits, Int.cast_abs, hquotient _ _ one_pos_rat]

/-! The numbers that bounds are made of. -/

theorem toRat?_zero : zero.toRat? = some 0 := by
  have hunits : signedUnits false 0 = 0 := by
    have hzero : units 0 = 0 := units_of_lt (by decide)
    simp [signedUnits, hzero]
  rw [zero, toRat?_signed (by decide), hunits, Int.cast_zero, zero_div]

theorem toRat?_one : (ofNat 1).toRat? = some 1 := by
  have hunits : signedUnits false (1023 * binade) = (one : Int) := by
    rw [signedUnits, if_neg Bool.false_ne_true, units_one]
  rw [ofNat_one, toRat?_signed (by decide), hunits, Int.cast_natCast, div_self one_pos_rat.ne']

end AnimationKit.Binary64
