import AnimationKit.Proofs.Binary64.Rounding
import AnimationKit.Proofs.Binary64.Sign
import AnimationKit.Proofs.Decimal.Reading
import AnimationKit.Proofs.Text.Cutting

/-! Every number that is written denotes an exact decimal, and the opposite number its opposite. -/
namespace AnimationKit

open Binary64

/-- The exact number that a text denotes, if it denotes a finite one. -/
def ratOfText? (text : String) : Option ℚ :=
  match Literal.read? text.toList with
  | some (.decimal d) => some d.toRat
  | _ => none

theorem ratOfText?_of_read {text : String} {d : Decimal}
    (h : Literal.read? text.toList = some (.decimal d)) : ratOfText? text = some d.toRat := by
  rw [ratOfText?, h]

theorem ratOfText?_zero : ratOfText? "0" = some 0 := by
  have hread : Literal.read? "0".toList = some (.decimal ⟨false, 0, 0⟩) := rfl
  rw [ratOfText?_of_read hread]
  simp [Decimal.toRat]

theorem ratOfText?_one : ratOfText? "1" = some 1 := by
  have hread : Literal.read? "1".toList = some (.decimal ⟨false, 1, 0⟩) := rfl
  rw [ratOfText?_of_read hread]
  simp [Decimal.toRat]

theorem ratOfText?_minus_one : ratOfText? "-1" = some (-1) := by
  have hread : Literal.read? "-1".toList = some (.decimal ⟨true, 1, 0⟩) := rfl
  rw [ratOfText?_of_read hread]
  simp [Decimal.toRat]

theorem ratOfText?_text (d : Decimal) : ratOfText? (d.text plainLayout) = some d.toRat := by
  rw [ratOfText?, Decimal.text, String.toList_ofList, Decimal.read?_chars rfl rfl]
  exact congrArg some Decimal.toRat_expanded

namespace Measure

variable {value : Binary64}

/-- The decimal that is written for a value. -/
def decimal (value : Binary64) : Decimal :=
  match rounded value with
  | .nan => ⟨false, 0, 0⟩
  | .signed negative rank _ =>
    if rank = 0 ∨ rank = topRank then ⟨false, 0, 0⟩ else shortest .up negative rank

theorem equals_zero_signed {negative : Bool} {rank : Nat} {h : rank ≤ topRank} :
    (Binary64.signed negative rank h).equals .zero = decide (rank = 0) := by
  cases negative <;> simp [equals, place?, zero]

theorem number_eq_text (value : Binary64) : number value = (decimal value).text plainLayout := by
  have hzero : Decimal.text plainLayout ⟨false, 0, 0⟩ = "0" := rfl
  unfold number decimal
  cases rounded value with
  | nan => exact hzero.symm
  | signed negative rank h =>
    rw [equals_zero_signed]
    dsimp only
    by_cases hrank : rank = 0 ∨ rank = topRank
    · rw [if_pos hrank, hzero, if_pos]
      rcases hrank with rfl | rfl <;> simp [isFinite]
    · obtain ⟨hne, htop⟩ := not_or.mp hrank
      have hlt : rank < topRank := Nat.lt_of_le_of_ne h htop
      simp [hne, htop, isFinite, hlt, plain]

/-- The text of a number denotes its decimal. -/
theorem ratOfText?_number (value : Binary64) :
    ratOfText? (number value) = some (decimal value).toRat := by
  rw [number_eq_text, ratOfText?_text]

theorem mem_number {c : Char} (h : c ∈ (number value).toList) :
    c.isDigit = true ∨ c = '.' ∨ c = '-' := by
  rw [number_eq_text, Decimal.text, String.toList_ofList] at h
  exact Decimal.mem_chars rfl rfl h

/-- None of the marks is one that a number is written with. -/
def Separating (marks : List Char) : Prop :=
  ∀ mark ∈ marks, mark.isDigit = false ∧ mark ≠ '.' ∧ mark ≠ '-'

instance {marks : List Char} : Decidable (Separating marks) :=
  List.decidableBAll (fun mark : Char => mark.isDigit = false ∧ mark ≠ '.' ∧ mark ≠ '-') marks

theorem avoids_number {marks : List Char} (h : Separating marks) (value : Binary64) :
    Text.Avoids marks (number value).toList := by
  intro c hc hm
  obtain ⟨hdigit, hpoint, hminus⟩ := h c hm
  rcases mem_number hc with hc | hc | hc
  · rw [hc] at hdigit
    contradiction
  · exact hpoint hc
  · exact hminus hc

theorem toRat_withSign (d : Decimal) (negative : Bool) :
    (d.withSign !negative).toRat = -(d.withSign negative).toRat := by
  cases negative <;> simp [Decimal.toRat, Decimal.withSign]

/-- The opposite of a value is written as the opposite number. -/
theorem toRat_decimal_neg (value : Binary64) :
    (decimal value.neg).toRat = -(decimal value).toRat := by
  unfold decimal
  rw [rounded_neg]
  cases rounded value with
  | nan => simp [neg, Decimal.toRat]
  | signed negative rank h =>
    simp only [neg]
    split
    · simp [Decimal.toRat]
    · rw [shortest_sign, toRat_withSign, ← shortest_sign]

theorem text_withSign (d : Decimal) :
    (d.withSign true).text plainLayout = "-" ++ (d.withSign false).text plainLayout := by
  have hchars : (d.withSign true).chars plainLayout = '-' :: (d.withSign false).chars plainLayout :=
    rfl
  rw [Decimal.text, hchars, String.ofList_cons]
  rfl

theorem plain_neg {rank : Nat} {h : rank ≤ topRank} (htop : rank ≠ topRank) :
    (Binary64.signed true rank h).plain = "-" ++ (Binary64.signed false rank h).plain := by
  have hpositive : shortest .up false rank = (shortest .up false rank).withSign false :=
    shortest_sign
  have hnegative : shortest .up true rank = (shortest .up false rank).withSign true :=
    shortest_sign
  simp only [plain, if_neg htop]
  rw [hnegative, text_withSign, ← hpositive]

/-- The opposite of a magnitude is written with a minus sign, unless it is written as zero. -/
theorem number_neg_abs (value : Binary64) :
    number value.abs.neg = "0" ∧ number value.abs = "0" ∨
      number value.abs.neg = "-" ++ number value.abs := by
  have hpositive : (rounded value.abs).abs = rounded value.abs := by rw [abs_rounded, abs_abs]
  unfold number
  rw [rounded_neg]
  generalize rounded value.abs = magnitude at hpositive
  cases magnitude with
  | nan => exact Or.inl ⟨rfl, rfl⟩
  | signed negative rank h =>
    obtain rfl : negative = false := by
      rw [abs_signed, Binary64.signed.injEq] at hpositive
      exact hpositive.1.symm
    simp only [neg, Bool.not_false, equals_zero_signed, isFinite]
    by_cases hzero : rank = 0
    · simp [hzero]
    · by_cases htop : rank < topRank
      · right
        simp [hzero, htop, plain_neg (Nat.ne_of_lt htop)]
      · simp [htop]

/-- The numbers that are written for every config. -/
theorem number_closed : number (.signed false 0 (Nat.zero_le _)) = "0" ∧
    number (.signed true 0 (Nat.zero_le _)) = "0" ∧ number (Binary64.ofNat 1).neg = "-1" ∧
    percent (.ofQuotient 3 5) = "60%" := by decide +kernel

/-- A zero of either sign is written without it. -/
theorem number_zero (negative : Bool) : number (.signed negative 0 (Nat.zero_le _)) = "0" := by
  cases negative with
  | false => exact number_closed.1
  | true => exact number_closed.2.1

theorem toRat_of_number_zero (h : number value = "0") : (decimal value).toRat = 0 := by
  have hread := ratOfText?_number value
  rw [h, ratOfText?_zero] at hread
  exact (Option.some.inj hread).symm

end Measure
end AnimationKit
