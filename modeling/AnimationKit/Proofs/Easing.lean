import AnimationKit.Easing
import AnimationKit.Proofs.Measure.Rounding
import AnimationKit.Proofs.Text.Trimming

/-!
The text of a curve is read back as the curve with rounded control points, if those are in the range
that they are checked for. Rounding does not leave that range and comes into it from close by.
-/
namespace AnimationKit

open Text

/-! Numbers as they are written. -/

namespace Binary64

theorem ofDecimal_expanded (d : Decimal) : ofDecimal d.expanded = ofDecimal d := by
  have hrank : decimalRank d.expanded.coefficient d.expanded.exponent =
      decimalRank d.coefficient d.exponent := by
    unfold Decimal.expanded
    split
    · rename_i h
      have hshift := decimalRank_mul_pow d.coefficient d.exponent d.exponent.toNat
      rwa [Int.toNat_of_nonneg h, Int.sub_self] at hshift
    · rfl
  rw [ofDecimal_eq, ofDecimal_eq]
  simp only [Decimal.negative_expanded, hrank]

end Binary64

namespace Measure

open Binary64

variable {value : Binary64}

/-- The double that is read from the text of a number. -/
def reread (value : Binary64) : Binary64 := ofDecimal (decimal value)

theorem read?_number (value : Binary64) :
    read? (number value).toList = some (reread value) := by
  have hread : Literal.read? ((decimal value).chars plainLayout) =
      some (.decimal (decimal value).expanded) := Decimal.read?_chars rfl rfl
  rw [number_eq_text, Decimal.text, String.toList_ofList, read?, hread, Option.map_some,
    ofLiteral, ofDecimal_expanded, reread]

/-- A zero has no sign when it is read again, and what is not finite is written as a zero. -/
theorem reread_of_rounded {negative : Bool} {rank : Nat} {h : rank ≤ topRank}
    (hrounded : rounded value = .signed negative rank h) :
    reread value = if rank = 0 ∨ rank = topRank then .zero else .signed negative rank h := by
  rw [reread, decimal_of_rounded hrounded]
  split
  · rfl
  · exact ofDecimal_shortest .up negative h

theorem reread_of_not_finite (h : value.isFinite = false) : reread value = .zero := by
  cases value with
  | nan => rfl
  | signed negative rank hrank =>
    obtain rfl : rank = topRank := by
      have htop : ¬ rank < topRank := by simpa [isFinite] using h
      omega
    rw [reread_of_rounded (rounded_of_limit limitRank_closed.1.le), if_pos (Or.inr rfl)]

/-! Rounding within the unit interval. -/

/-- Rank of one, which is where the unit interval ends. -/
def unitRank : Nat := 1023 * binade

theorem inUnit_signed {negative : Bool} {rank : Nat} {h : rank ≤ topRank} :
    Easing.inUnit (.signed negative rank h) = true ↔
      rank ≤ unitRank ∧ (negative = true → rank = 0) := by
  have hone : Binary64.ofNat 1 = .signed false unitRank (by decide) := ofNat_one
  unfold Easing.inUnit
  rw [hone]
  cases negative
  · simp [le, place?, zero]
  · simp [le, place?, zero]
    omega

/-- Half of the last decimal above one. -/
def overUnit : Binary64 := .ofQuotient 20001 20000

/-- The rank of half of the last decimal above one. -/
def overUnitRank : Nat := nearestRank (20001 * one) 20000

/-- It is the least magnitude that is rounded to more than one. -/
theorem overUnitRank_closed : halfStepRank < unitRank ∧ unitRank < overUnitRank ∧
    overUnitRank < limitRank ∧ roundedRank (overUnitRank - 1) = unitRank ∧
    unitRank < roundedRank overUnitRank := by
  decide +kernel

theorem overUnit_cut : Cut unitRank overUnitRank := by
  obtain ⟨-, hunit, hlimit, hbelow, habove⟩ := overUnitRank_closed
  exact ⟨Nat.zero_lt_of_lt hunit, Nat.le_of_eq hbelow, habove, hunit.trans hlimit, hlimit⟩

/-- The number is written as one of the unit interval: it is less than half of the last decimal
away, or it is not finite and so written as zero. -/
def NearUnit (value : Binary64) : Prop :=
  value.isFinite = true → halfStep.neg.lt value = true ∧ value.lt overUnit = true

theorem nearUnit_signed {negative : Bool} {rank : Nat} {h : rank ≤ topRank}
    (hfinite : rank < topRank) : NearUnit (.signed negative rank h) ↔
      rank < overUnitRank ∧ (negative = true → rank < halfStepRank) := by
  have hhalf : halfStep = .signed false halfStepRank (nearestRank_le_topRank _ _) := rfl
  have hover : overUnit = .signed false overUnitRank (nearestRank_le_topRank _ _) := rfl
  have hpos := halfStepRank_closed.1
  obtain ⟨hhalfUnit, hunit, -, -, -⟩ := overUnitRank_closed
  simp only [NearUnit, isFinite, hhalf, hover, neg, lt, place?, hfinite, decide_eq_true_eq,
    true_implies]
  cases negative
  · simp only [Bool.not_false, Bool.false_eq_true, if_true, if_false, false_implies, and_true]
    omega
  · simp only [Bool.not_false, Bool.false_eq_true, if_true, if_false, true_implies]
    omega

theorem inUnit_zero : Easing.inUnit .zero = true := inUnit_signed.mpr ⟨Nat.zero_le _, fun _ => rfl⟩

/-- A number is read again as one of the unit interval if it is close enough to that. -/
theorem inUnit_reread_iff : Easing.inUnit (reread value) = true ↔ NearUnit value := by
  by_cases hfinite : value.isFinite = true
  · cases value with
    | nan => cases hfinite
    | signed negative rank h =>
      have hlt : rank < topRank := by simpa [isFinite] using hfinite
      obtain ⟨result, hresult, hrounded, hfinite, hcut⟩ := rounded_cut negative hlt
      have hzero := hcut 0 _ halfStep_cut
      have hunit := hcut _ _ overUnit_cut
      rw [nearUnit_signed hlt, reread_of_rounded hrounded, ← hunit, ← hzero]
      by_cases hnone : result = 0
      · rw [if_pos (Or.inl hnone)]
        simp [inUnit_zero, hnone]
      · rw [if_neg (not_or.mpr ⟨hnone, Nat.ne_of_lt hfinite⟩), inUnit_signed, Nat.le_zero]
  · have hnot : value.isFinite = false := by simpa using hfinite
    rw [reread_of_not_finite hnot]
    exact iff_of_true inUnit_zero fun h => (hfinite h).elim

theorem isFinite_reread (value : Binary64) : (reread value).isFinite = true := by
  cases hrounded : rounded value with
  | nan =>
    have hdecimal : decimal value = ⟨false, 0, 0⟩ := by rw [decimal, hrounded]
    rw [reread, hdecimal]
    rfl
  | signed negative rank h =>
    rw [reread_of_rounded hrounded]
    split
    · rfl
    · rename_i hrank
      exact isFinite_signed.mpr (not_or.mp hrank).2

/-- The numbers of the unit interval are close to it. -/
theorem nearUnit_of_inUnit (h : Easing.inUnit value = true) : NearUnit value := by
  cases value with
  | nan => simp [Easing.inUnit, le, place?] at h
  | signed negative rank hrank =>
    obtain ⟨hle, hsign⟩ := inUnit_signed.mp h
    obtain ⟨-, hunit, hlimit, -, -⟩ := overUnitRank_closed
    have htop := limitRank_closed.1
    rw [nearUnit_signed (by omega)]
    refine ⟨by omega, fun hnegative => ?_⟩
    rw [hsign hnegative]
    exact halfStepRank_closed.1

end Measure

/-! Curves. -/

namespace Easing

theorem isFinite_of_inUnit {value : Binary64} (h : inUnit value = true) :
    value.isFinite = true := by
  cases value with
  | nan => simp [inUnit, Binary64.le, Binary64.place?] at h
  | signed negative rank hrank =>
    have hone := Measure.overUnit_cut.bound_lt
    have htop := Measure.limitRank_closed.1
    have hle := (Measure.inUnit_signed.mp h).1
    exact Binary64.isFinite_signed.mpr (by omega)

/-- What holds of every curve that is read. -/
def Valid : Easing → Prop
  | .named _ => True
  | .cubicBezier x₁ y₁ x₂ y₂ =>
    inUnit x₁ = true ∧ inUnit x₂ = true ∧ y₁.isFinite = true ∧ y₂.isFinite = true

theorem valid_of_ofPoints? {chars : List Char} {easing : Easing}
    (h : ofPoints? chars = some easing) : easing.Valid := by
  unfold ofPoints? at h
  split at h
  · split_ifs at h with hpoints
    obtain rfl := Option.some.inj h
    simp only [Bool.and_eq_true] at hpoints
    obtain ⟨⟨⟨hx₁, hx₂⟩, hy₁⟩, hy₂⟩ := hpoints
    exact ⟨hx₁, hx₂, hy₁, hy₂⟩
  · simp at h

theorem valid_of_ofText {text : String} {easing : Easing} (h : ofText text = .ok easing) :
    easing.Valid := by
  unfold ofText at h
  split at h
  · rename_i read hread
    obtain rfl := Except.ok.inj h
    unfold ofTrimmed? at hread
    split at hread
    · rw [← Option.some.inj hread]
      trivial
    · obtain ⟨chars, -, hpoints⟩ := Option.bind_eq_some_iff.mp hread
      exact valid_of_ofPoints? hpoints
  · simp at h

theorem ofText_named (curve : NamedCurve) : ofText (text (.named curve)) = .ok (.named curve) := by
  cases curve <;> rfl

theorem read?_trim_number (value : Binary64) :
    Binary64.read? (trim (Measure.number value).toList) =
      Binary64.read? (Measure.number value).toList := by
  rw [trim_of_forall fun c hc => isBlank_number (Measure.mem_number hc)]

/-- The curve that is read from the text of a curve. -/
def reread : Easing → Easing
  | .named curve => .named curve
  | .cubicBezier x₁ y₁ x₂ y₂ =>
    .cubicBezier (Measure.reread x₁) (Measure.reread y₁) (Measure.reread x₂) (Measure.reread y₂)

instance (easing : Easing) : Decidable easing.Valid :=
  match easing with
  | .named _ => isTrue trivial
  | .cubicBezier x₁ y₁ x₂ y₂ => inferInstanceAs (Decidable (inUnit x₁ = true ∧ inUnit x₂ = true ∧
      y₁.isFinite = true ∧ y₂.isFinite = true))

/-- The control points that are read from the text of a curve. -/
theorem ofPoints?_text (x₁ y₁ x₂ y₂ : Binary64) :
    ofPoints? ((Measure.number x₁).toList ++ ',' :: ' ' :: ((Measure.number y₁).toList ++
      ',' :: ' ' :: ((Measure.number x₂).toList ++ ',' :: ' ' :: (Measure.number y₂).toList))) =
        if (cubicBezier x₁ y₁ x₂ y₂).reread.Valid then some (cubicBezier x₁ y₁ x₂ y₂).reread
        else none := by
  have hcomma (value : Binary64) : ',' ∉ (Measure.number value).toList :=
    (Measure.avoids_number (by decide) value).not_mem (List.mem_singleton.mpr rfl)
  have hcomma' (value : Binary64) : ',' ∉ ' ' :: (Measure.number value).toList := by
    rw [List.mem_cons, not_or]
    exact ⟨by decide, hcomma value⟩
  unfold ofPoints?
  rw [splitOn_append (hcomma x₁), ← List.cons_append, splitOn_append (hcomma' y₁),
    ← List.cons_append, splitOn_append (hcomma' x₂), splitOn_of_not_mem (hcomma' y₂)]
  simp [trim_blank_cons, read?_trim_number, Measure.read?_number, Measure.isFinite_reread, reread,
    Valid]

/-- The text of a curve is read as the curve with the control points that are written, if that is
one that a text can have. -/
theorem ofText_text_eq (easing : Easing) : ofText easing.text =
    if easing.reread.Valid then .ok easing.reread else .error (.invalidEasing easing.text) := by
  cases easing with
  | named curve => exact ofText_named curve
  | cubicBezier x₁ y₁ x₂ y₂ =>
    have hpoints := ofPoints?_text x₁ y₁ x₂ y₂
    generalize hinside : (Measure.number x₁).toList ++ ',' :: ' ' :: ((Measure.number y₁).toList ++
      ',' :: ' ' :: ((Measure.number x₂).toList ++ ',' :: ' ' :: (Measure.number y₂).toList)) =
        inside at hpoints
    have hcomma : ", ".toList = [',', ' '] := rfl
    have hclosing : ")".toList = [')'] := rfl
    have hchars : (text (.cubicBezier x₁ y₁ x₂ y₂)).toList =
        bezierOpening.toList ++ inside ++ [')'] := by
      simp only [text, String.toList_append, hcomma, hclosing, ← hinside, List.append_assoc,
        List.cons_append, List.nil_append]
    have hopening : bezierOpening.toList = 'c' :: "ubic-bezier(".toList := rfl
    have htrim : trim (text (.cubicBezier x₁ y₁ x₂ y₂)).toList =
        bezierOpening.toList ++ inside ++ [')'] := by
      rw [hchars]
      apply trim_of_ends
      · intro c hc
        rw [hopening] at hc
        obtain rfl := Option.some.inj hc
        decide
      · intro c hc
        rw [List.getLast?_concat] at hc
        obtain rfl := Option.some.inj hc
        decide
    have hnamed : NamedCurve.ofName? (bezierOpening.toList ++ inside ++ [')']) = none := by
      rw [NamedCurve.ofName?, List.find?_eq_none, hopening]
      intro curve _ hname
      rw [beq_iff_eq] at hname
      have hhead : curve.name.toList.head? = some 'c' := congrArg List.head? hname
      cases curve <;> exact absurd hhead (by decide)
    rw [ofText, htrim, ofTrimmed?, hnamed]
    simp only [between?_append, Option.bind_some, hpoints]
    by_cases hvalid : (cubicBezier x₁ y₁ x₂ y₂).reread.Valid
    · rw [if_pos hvalid, if_pos hvalid]
    · rw [if_neg hvalid, if_neg hvalid]

/-- Both ends of the curve are close enough to the unit interval on their first axis. -/
def NearUnit : Easing → Prop
  | .named _ => True
  | .cubicBezier x₁ _ x₂ _ => Measure.NearUnit x₁ ∧ Measure.NearUnit x₂

theorem valid_reread_iff {easing : Easing} : easing.reread.Valid ↔ easing.NearUnit := by
  cases easing with
  | named curve => exact Iff.rfl
  | cubicBezier x₁ y₁ x₂ y₂ =>
    simp [reread, Valid, NearUnit, Measure.inUnit_reread_iff, Measure.isFinite_reread]

theorem nearUnit_of_valid {easing : Easing} (h : easing.Valid) : easing.NearUnit := by
  cases easing with
  | named curve => trivial
  | cubicBezier x₁ y₁ x₂ y₂ =>
    exact ⟨Measure.nearUnit_of_inUnit h.1, Measure.nearUnit_of_inUnit h.2.1⟩

theorem ofText_reread {easing : Easing} (h : easing.NearUnit) :
    ofText easing.text = .ok easing.reread := by
  rw [ofText_text_eq, if_pos (valid_reread_iff.mpr h)]

/-- No text has a control point that is written as a number outside of the unit interval. -/
theorem ofText_of_not_nearUnit {easing : Easing} (h : ¬ easing.NearUnit) :
    ofText easing.text = .error (.invalidEasing easing.text) := by
  rw [ofText_text_eq, if_neg (mt valid_reread_iff.mp h)]

/-- The text of a curve that was read is read again. -/
theorem ofText_text {easing : Easing} (h : easing.Valid) :
    ∃ easing', ofText easing.text = .ok easing' := ⟨_, ofText_reread (nearUnit_of_valid h)⟩

end Easing
end AnimationKit
