import AnimationKit.Decimal.Literal
import Mathlib.Algebra.Order.Field.Rat
import Mathlib.Data.List.Basic
import Mathlib.Data.List.TakeWhile
import Mathlib.Tactic.Common

/-! The number that a decimal stands for, and its text: a literal of the same number. -/
namespace AnimationKit

theorem natOfDigits_eq (digits : List Char) :
    natOfDigits digits = Nat.ofDigitChars 10 digits 0 :=
  Nat.ofDigitChars_eq_foldl.symm

theorem natOfDigits_append_zeros (digits : List Char) (count : Nat) :
    natOfDigits (digits ++ List.replicate count '0') = natOfDigits digits * 10 ^ count := by
  rw [natOfDigits_eq, natOfDigits_eq, Nat.ofDigitChars_append, Nat.ofDigitChars_replicate_zero,
    Nat.mul_comm]

theorem natOfDigits_zeros_append (digits : List Char) (count : Nat) :
    natOfDigits (List.replicate count '0' ++ digits) = natOfDigits digits := by
  rw [natOfDigits_eq, natOfDigits_eq, Nat.ofDigitChars_append, Nat.ofDigitChars_replicate_zero,
    Nat.mul_zero]

/-! The ends of a row of digits. -/

theorem head?_digitChar : ∀ n < 10, n ≠ 0 → [n.digitChar].head? ≠ some '0' := by decide

theorem head?_toDigits {n : Nat} (h : n ≠ 0) : (Nat.toDigits 10 n).head? ≠ some '0' := by
  induction n using Nat.strongRecOn with
  | ind n ih =>
    by_cases hlt : n < 10
    · rw [Nat.toDigits_of_lt_base hlt]
      exact head?_digitChar n hlt h
    · rw [Nat.toDigits_of_base_le (by decide) (by omega)]
      have hquotient := ih (n / 10) (by omega) (by omega)
      rwa [List.head?_append_of_ne_nil _ Nat.toDigits_ne_nil]

theorem getLast?_toDigits (n : Nat) :
    (Nat.toDigits 10 n).getLast? = some (n % 10).digitChar := by
  by_cases hlt : n < 10
  · rw [Nat.toDigits_of_lt_base hlt, Nat.mod_eq_of_lt hlt]
    rfl
  · rw [Nat.toDigits_of_base_le (by decide) (by omega), List.getLast?_concat]

namespace Decimal

variable {d : Decimal}

/-- The number that a decimal stands for. -/
def toRat (d : Decimal) : ℚ := (if d.negative then -1 else 1) * d.coefficient * 10 ^ d.exponent

/-- The same number with its zeros written out. -/
def expanded (d : Decimal) : Decimal :=
  if 0 ≤ d.exponent then ⟨d.negative, d.coefficient * 10 ^ d.exponent.toNat, 0⟩ else d

theorem toRat_expanded : d.expanded.toRat = d.toRat := by
  unfold expanded
  split
  · rename_i h
    obtain ⟨n, hn⟩ := Int.eq_ofNat_of_zero_le h
    simp [toRat, hn]
  · rfl

theorem natOfDigits_digits : natOfDigits d.digits = d.coefficient := by
  rw [natOfDigits_eq, digits, Nat.ofDigitChars_ten_toDigits]

theorem isDigit_of_mem_digits {c : Char} (h : c ∈ d.digits) : c.isDigit = true :=
  Nat.isDigit_of_mem_toDigits (by decide) (by decide) h

theorem digits_ne_nil : d.digits ≠ [] := Nat.toDigits_ne_nil

end Decimal

namespace Literal

variable {whole fraction : List Char} {negative : Bool}

theorem magnitude?_whole (hne : whole ≠ []) (h : ∀ c ∈ whole, c.isDigit = true) :
    magnitude? negative whole = some ⟨negative, natOfDigits whole, 0⟩ := by
  have htake := List.takeWhile_eq_self_iff.mpr h
  have hdrop := List.dropWhile_eq_nil_iff.mpr h
  simp [magnitude?, htake, hdrop, splitFraction, exponent?, hne]

theorem magnitude?_fraction (hne : whole ≠ []) (hwhole : ∀ c ∈ whole, c.isDigit = true)
    (hfraction : ∀ c ∈ fraction, c.isDigit = true) :
    magnitude? negative (whole ++ '.' :: fraction) =
      some ⟨negative, natOfDigits (whole ++ fraction), -fraction.length⟩ := by
  have htake : (whole ++ '.' :: fraction).takeWhile Char.isDigit = whole := by
    rw [List.takeWhile_append_of_pos hwhole]
    simp
  have hdrop : (whole ++ '.' :: fraction).dropWhile Char.isDigit = '.' :: fraction := by
    rw [List.dropWhile_append_of_pos hwhole]
    simp
  have htake' := List.takeWhile_eq_self_iff.mpr hfraction
  have hdrop' := List.dropWhile_eq_nil_iff.mpr hfraction
  simp [magnitude?, htake, hdrop, splitFraction, htake', hdrop', exponent?, hne]

/-- A decimal starts with a digit or the point. -/
theorem head_of_magnitude? {chars : List Char} {d : Decimal}
    (h : magnitude? negative chars = some d) :
    ∃ c rest, chars = c :: rest ∧ (c.isDigit = true ∨ c = '.') := by
  cases chars with
  | nil => simp [magnitude?, splitFraction] at h
  | cons c rest =>
    refine ⟨c, rest, rfl, ?_⟩
    by_cases hdigit : c.isDigit = true
    · exact Or.inl hdigit
    · right
      by_contra hpoint
      have hwhole : (c :: rest).takeWhile Char.isDigit = [] := by simp [hdigit]
      have hdrop : (c :: rest).dropWhile Char.isDigit = c :: rest := by simp [hdigit]
      have hsplit : splitFraction (c :: rest) = ([], c :: rest) := by
        unfold splitFraction
        split
        · rename_i he
          exact (hpoint (List.cons.inj he).1).elim
        · rfl
      simp [magnitude?, hwhole, hdrop, hsplit] at h

theorem toLower_of_isDigit {c : Char} (h : c.isDigit = true) : c.toLower = c := by
  unfold Char.toLower
  rw [dif_neg]
  intro hupper
  simp only [Char.isDigit, Bool.and_eq_true, decide_eq_true_eq] at h
  have hhigh := UInt32.le_iff_toNat_le.mp h.2
  have hlow := UInt32.le_iff_toNat_le.mp hupper.1
  simp at hhigh hlow
  omega

/-- Such a character starts neither a sign nor a name. -/
theorem ne_of_head {c : Char} (h : c.isDigit = true ∨ c = '.') :
    c ≠ '+' ∧ c ≠ '-' ∧ c.toLower ≠ 'i' ∧ c.toLower ≠ 'n' := by
  have hlower : c.toLower = c := by
    rcases h with h | rfl
    · exact toLower_of_isDigit h
    · decide
  rw [hlower]
  refine ⟨?_, ?_, ?_, ?_⟩ <;> rintro rfl <;> exact absurd h (by decide)

/-- What reads as a magnitude is a literal, and so it is behind a minus sign. -/
theorem read?_of_magnitude? {chars : List Char} {d : Decimal}
    (h : magnitude? false chars = some d) : read? chars = some (.decimal d) := by
  obtain ⟨c, rest, rfl, hc⟩ := head_of_magnitude? h
  obtain ⟨hplus, hminus, hi, hn⟩ := ne_of_head hc
  simp [read?, splitSign, hplus, hminus, hi, hn, h]

theorem read?_minus_of_magnitude? {chars : List Char} {d : Decimal}
    (h : magnitude? true chars = some d) : read? ('-' :: chars) = some (.decimal d) := by
  obtain ⟨c, rest, rfl, hc⟩ := head_of_magnitude? h
  obtain ⟨-, -, hi, hn⟩ := ne_of_head hc
  simp [read?, splitSign, hi, hn, h]

end Literal

namespace Decimal

variable {d : Decimal} {negative : Bool}

theorem isDigit_zero : '0'.isDigit = true := by decide

theorem isDigit_of_mem_zeros {c : Char} {count : Nat} (h : c ∈ List.replicate count '0') :
    c.isDigit = true := by
  rw [List.eq_of_mem_replicate h]
  exact isDigit_zero

theorem isDigit_of_mem_append {c : Char} {left right : List Char}
    (hleft : ∀ c ∈ left, c.isDigit = true) (hright : ∀ c ∈ right, c.isDigit = true)
    (h : c ∈ left ++ right) : c.isDigit = true :=
  (List.mem_append.mp h).elim (hleft c) (hright c)

theorem magnitude?_positionalChars :
    Literal.magnitude? negative (d.positionalChars "") = some { d.expanded with negative } := by
  unfold positionalChars expanded
  split
  · have hdigits : ∀ c ∈ d.digits ++ List.replicate d.exponent.toNat '0', c.isDigit = true :=
      fun c => isDigit_of_mem_append (fun _ => isDigit_of_mem_digits) fun _ => isDigit_of_mem_zeros
    have hne : d.digits ++ List.replicate d.exponent.toNat '0' ≠ [] := by simp [digits_ne_nil]
    rw [String.toList_empty, List.append_nil, Literal.magnitude?_whole hne hdigits,
      natOfDigits_append_zeros, natOfDigits_digits]
  · rename_i hexponent
    split
    · rename_i hplace
      have hlength : d.pointPlace = d.digits.length + d.exponent := rfl
      have hne : d.digits.take d.pointPlace.toNat ≠ [] := by
        have hpos := List.length_pos_iff.mpr d.digits_ne_nil
        rw [ne_eq, ← List.length_eq_zero_iff, List.length_take]
        omega
      rw [Literal.magnitude?_fraction hne
        (fun c hc => isDigit_of_mem_digits (List.mem_of_mem_take hc))
        (fun c hc => isDigit_of_mem_digits (List.mem_of_mem_drop hc)),
        List.take_append_drop, natOfDigits_digits, List.length_drop]
      congr 2
      omega
    · rename_i hplace
      have hlength : d.pointPlace = d.digits.length + d.exponent := rfl
      have hdigits : ∀ c ∈ List.replicate (-d.pointPlace).toNat '0' ++ d.digits,
          c.isDigit = true :=
        fun c => isDigit_of_mem_append (fun _ => isDigit_of_mem_zeros)
          fun _ => isDigit_of_mem_digits
      have hwhole : ∀ c ∈ ['0'], c.isDigit = true := by simp [isDigit_zero]
      have hzero : natOfDigits (['0'] ++ (List.replicate (-d.pointPlace).toNat '0' ++ d.digits)) =
          d.coefficient := by
        rw [← natOfDigits_digits, ← natOfDigits_zeros_append d.digits ((-d.pointPlace).toNat + 1)]
        rfl
      refine (Literal.magnitude?_fraction (by simp) hwhole hdigits).trans ?_
      rw [hzero, List.length_append, List.length_replicate]
      congr 2
      omega

theorem negative_expanded : d.expanded.negative = d.negative := by
  unfold expanded
  split <;> rfl

theorem mem_positionalChars {c : Char} (h : c ∈ d.positionalChars "") :
    c.isDigit = true ∨ c = '.' := by
  have hdigits : ∀ c ∈ d.digits, c.isDigit = true := fun _ => isDigit_of_mem_digits
  have hzeros : ∀ count, ∀ c ∈ List.replicate count '0', c.isDigit = true :=
    fun _ _ => isDigit_of_mem_zeros
  unfold positionalChars at h
  split at h
  · rw [String.toList_empty, List.append_nil] at h
    exact Or.inl (isDigit_of_mem_append hdigits (hzeros _) h)
  · split at h
    · rcases List.mem_append.mp h with h | h
      · exact Or.inl (hdigits c (List.mem_of_mem_take h))
      · rcases List.mem_cons.mp h with rfl | h
        · exact Or.inr rfl
        · exact Or.inl (hdigits c (List.mem_of_mem_drop h))
    · rcases List.mem_cons.mp h with rfl | h
      · exact Or.inl isDigit_zero
      · rcases List.mem_cons.mp h with rfl | h
        · exact Or.inr rfl
        · exact Or.inl (isDigit_of_mem_append (hzeros _) hdigits h)

/-- The characters of a decimal in positional notation. -/
theorem mem_chars {c : Char} {layout : Layout}
    (hpositional : layout.isPositional (d.pointPlace - 1) = true)
    (hsuffix : layout.wholeSuffix = "") (h : c ∈ d.chars layout) :
    c.isDigit = true ∨ c = '.' ∨ c = '-' := by
  unfold chars at h
  rw [hpositional, hsuffix, if_pos rfl] at h
  split at h
  · rcases List.mem_cons.mp h with rfl | h
    · exact Or.inr (Or.inr rfl)
    · exact (mem_positionalChars h).imp_right Or.inl
  · exact (mem_positionalChars h).imp_right Or.inl

/-- A decimal in positional notation reads back as the same number. -/
theorem read?_chars {layout : Layout} (hpositional : layout.isPositional (d.pointPlace - 1) = true)
    (hsuffix : layout.wholeSuffix = "") :
    Literal.read? (d.chars layout) = some (.decimal d.expanded) := by
  have hread : Literal.magnitude? d.negative (d.positionalChars "") = some d.expanded := by
    rw [magnitude?_positionalChars, ← negative_expanded]
  unfold chars
  rw [hpositional, hsuffix, if_pos rfl]
  cases h : d.negative with
  | false =>
    rw [h] at hread
    exact Literal.read?_of_magnitude? hread
  | true =>
    rw [h] at hread
    exact Literal.read?_minus_of_magnitude? hread

end Decimal
end AnimationKit
