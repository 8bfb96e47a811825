import AnimationKit.Proofs.Easing
import AnimationKit.Proofs.Measure.Decimals

/-!
Which curves come back from their text. A curve is saved in the form in which it is shown, with four
decimals, while it is read with all that its text has: what four decimals do not hold is lost.
-/
namespace AnimationKit

namespace Measure

open Binary64

variable {value : Binary64}

/-- A number comes back from its text if rounding leaves it as it is. -/
theorem reread_equals (h : value.isFinite = true) :
    (reread value).equals value = (rounded value).equals value := by
  cases value with
  | nan => simp [isFinite] at h
  | signed negative rank hrank =>
    have hlt : rank < topRank := by simpa [isFinite] using h
    obtain ⟨result, hresult, hrounded, hfinite, -⟩ := rounded_cut negative hlt
    rw [reread_of_rounded hrounded, hrounded]
    by_cases hzero : result = 0
    · -- A zero is written without its sign, which no comparison sees.
      subst hzero
      rw [if_pos (Or.inl rfl)]
      cases negative <;> simp [equals, place?, zero]
    · rw [if_neg (not_or.mpr ⟨hzero, Nat.ne_of_lt hfinite⟩)]

end Measure

namespace Easing

variable {easing : Easing} {text : String}

/-- The control points that a curve has by itself. -/
def points : Easing → List Binary64
  | .named _ => []
  | .cubicBezier x₁ y₁ x₂ y₂ => [x₁, y₁, x₂, y₂]

theorem isFinite_points (h : easing.Valid) : ∀ point ∈ easing.points, point.isFinite = true := by
  cases easing with
  | named curve => simp [points]
  | cubicBezier x₁ y₁ x₂ y₂ =>
    obtain ⟨hx₁, hx₂, hy₁, hy₂⟩ := h
    simp [points, isFinite_of_inUnit hx₁, isFinite_of_inUnit hx₂, hy₁, hy₂]

theorem reread_equals_iff (h : easing.Valid) : easing.reread.equals easing = true ↔
    ∀ point ∈ easing.points, (Measure.rounded point).equals point = true := by
  have hfinite := isFinite_points h
  cases easing with
  | named curve => simp [reread, equals, points]
  | cubicBezier x₁ y₁ x₂ y₂ =>
    simp only [points, List.forall_mem_cons] at hfinite
    obtain ⟨hx₁, hy₁, hx₂, hy₂, -⟩ := hfinite
    simp [reread, equals, points, Measure.reread_equals hx₁, Measure.reread_equals hy₁,
      Measure.reread_equals hx₂, Measure.reread_equals hy₂, and_assoc]

/-- The text of a curve that was read is read again, and as the same curve just if rounding leaves
all control points as they are. -/
theorem reread_of_ofText (h : ofText text = .ok easing) :
    ∃ again, ofText easing.text = .ok again ∧
      (again.equals easing = true ↔
        ∀ point ∈ easing.points, (Measure.rounded point).equals point = true) ∧
      ∀ point ∈ easing.points,
        (point.abs.le Measure.decimalsLimit = true →
          ((Measure.rounded point).equals point = true ↔ Measure.HasDecimals point)) ∧
        (Measure.roundingLimit.le point.abs = true →
          (Measure.rounded point).equals point = true) := by
  have hvalid := valid_of_ofText h
  refine ⟨easing.reread, ofText_reread (nearUnit_of_valid hvalid), reread_equals_iff hvalid, ?_⟩
  intro point _
  exact ⟨Measure.rounded_equals_iff, Measure.rounded_equals_of_limit⟩

/-- A curve that swings back and over, with three decimals at most. -/
def swing : Easing :=
  .cubicBezier (.ofQuotient 17 25) (Binary64.ofQuotient 11 20).neg (.ofQuotient 53 200)
    (.ofQuotient 31 20)

/-- A curve whose first control point is a third with so many decimals. -/
def third (decimals : Nat) : Easing :=
  .cubicBezier (.ofQuotient (Nat.pow 10 decimals / 3) (Nat.pow 10 decimals)) .zero
    (.ofQuotient 1 5) (.ofNat 1)

theorem texts_closed :
    (ofText "cubic-bezier(0.68, -0.55, 0.265, 1.55)" = .ok swing ∧
      ∀ point ∈ swing.points, (Measure.rounded point).equals point = true) ∧
    ofText "cubic-bezier(0.33333, 0, 0.2, 1)" = .ok (third 5) ∧
    (third 5).text = "cubic-bezier(0.3333, 0, 0.2, 1)" ∧
    ofText "cubic-bezier(0.3333, 0, 0.2, 1)" = .ok (third 4) ∧
    (third 4).equals (third 5) = false := by
  decide +kernel

theorem reread_of_ofText_swing :
    ∃ again, ofText "cubic-bezier(0.68, -0.55, 0.265, 1.55)" = .ok swing ∧
      ofText swing.text = .ok again ∧ again.equals swing = true := by
  obtain ⟨⟨hread, hpoints⟩, -⟩ := texts_closed
  obtain ⟨again, hagain, hiff, -⟩ := reread_of_ofText hread
  exact ⟨again, hread, hagain, hiff.mpr hpoints⟩

/-- A third that is given with five decimals comes back with four. -/
theorem changes_third :
    ∃ easing again, ofText "cubic-bezier(0.33333, 0, 0.2, 1)" = .ok easing ∧
      easing.text = "cubic-bezier(0.3333, 0, 0.2, 1)" ∧ ofText easing.text = .ok again ∧
      again.equals easing = false := by
  obtain ⟨-, hread, htext, hagain, hchanged⟩ := texts_closed
  exact ⟨third 5, third 4, hread, htext, htext ▸ hagain, hchanged⟩

end Easing
end AnimationKit
