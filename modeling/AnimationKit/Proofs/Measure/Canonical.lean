import AnimationKit.Proofs.Binary64.Coarsest
import AnimationKit.Proofs.Decimal.Grammar
import AnimationKit.Proofs.Measure.Steps

/-!
The one form that numbers are written in. What rounding leaves stands on the grid of four decimals,
as a ten-thousandth of a whole number or as a multiple of an eighth, and the shortest decimal that
reads back stands on no finer grid. So no digit of it can be left away and no exponent is needed.
-/
namespace AnimationKit

/-! Positional numbers without a needless digit. -/

/-- Digits before the point: a zero leads only if it is the only one. -/
structure WholeDigits (chars : List Char) : Prop where
  nonempty : chars ≠ []
  digits : Literal.Digits chars
  leading : chars.head? = some '0' → chars = ['0']

/-- Digits behind the point, the last of which is not a zero. -/
structure FractionDigits (places : Nat) (chars : List Char) : Prop where
  digits : Literal.Digits chars
  length_le : chars.length ≤ places
  last : ∃ c, chars.getLast? = some c ∧ c ≠ '0'

/-- A magnitude other than zero, with at most so many digits behind the point. -/
inductive Canonical (places : Nat) : List Char → Prop
  | whole {whole : List Char} : WholeDigits whole → whole ≠ ['0'] → Canonical places whole
  | fraction {whole fraction : List Char} : WholeDigits whole → FractionDigits places fraction →
      Canonical places (whole ++ '.' :: fraction)

namespace Decimal

variable {d : Decimal} {places : Nat} {chars : List Char}

theorem digitChar_ne_zero : ∀ n < 10, n ≠ 0 → n.digitChar ≠ '0' := by decide

/-- Digits that start like those of a positive number have no needless zero. -/
theorem wholeDigits_of_head (hne : d.coefficient ≠ 0) (hchars : Literal.Digits chars)
    (hhead : chars.head? = d.digits.head?) : WholeDigits chars ∧ chars ≠ ['0'] := by
  have hzero : chars.head? ≠ some '0' := by
    rw [hhead]
    exact head?_toDigits hne
  refine ⟨⟨?_, hchars, fun h => absurd h hzero⟩, ?_⟩
  · rintro rfl
    exact d.digits_ne_nil (List.head?_eq_none_iff.mp hhead.symm)
  · rintro rfl
    exact hzero rfl

/-- Digits that end like those of a number without a needless zero have none, either. -/
theorem fractionDigits_of_last (hlast : d.coefficient % 10 ≠ 0) (hchars : Literal.Digits chars)
    (hlength : chars.length ≤ places) (hend : chars.getLast? = d.digits.getLast?) :
    FractionDigits places chars := by
  refine ⟨hchars, hlength, _, hend.trans (getLast?_toDigits _), ?_⟩
  exact digitChar_ne_zero _ (Nat.mod_lt _ (by decide)) hlast

theorem digits_append {left right : List Char} (hleft : Literal.Digits left)
    (hright : Literal.Digits right) : Literal.Digits (left ++ right) :=
  fun c hc => (List.mem_append.mp hc).elim (hleft c) (hright c)

theorem canonical_positionalChars (hne : d.coefficient ≠ 0)
    (hlast : d.exponent < 0 → d.coefficient % 10 ≠ 0) (hplaces : -(places : Int) ≤ d.exponent) :
    Canonical places (d.positionalChars "") := by
  have hdigits : Literal.Digits d.digits :=
    Literal.digits_iff.mpr fun _ => isDigit_of_mem_digits
  have hzeros (count : Nat) : Literal.Digits (List.replicate count '0') :=
    Literal.digits_iff.mpr fun _ => isDigit_of_mem_zeros
  have hplace : d.pointPlace = d.digits.length + d.exponent := rfl
  unfold positionalChars
  split
  · rw [String.toList_empty, List.append_nil]
    obtain ⟨hwhole, hpositive⟩ := wholeDigits_of_head hne (digits_append hdigits (hzeros _))
      (List.head?_append_of_ne_nil _ d.digits_ne_nil)
    exact .whole hwhole hpositive
  · rename_i hexponent
    have hmod := hlast (by omega)
    split
    · rename_i hinside
      have hhead : (d.digits.take d.pointPlace.toNat).head? = d.digits.head? :=
        List.head?_take.trans (if_neg (by omega))
      have hend : (d.digits.drop d.pointPlace.toNat).getLast? = d.digits.getLast? :=
        List.getLast?_drop.trans (if_neg (by omega))
      obtain ⟨hwhole, -⟩ := wholeDigits_of_head hne
        (fun c hc => hdigits c (List.mem_of_mem_take hc)) hhead
      refine .fraction hwhole (fractionDigits_of_last hmod
        (fun c hc => hdigits c (List.mem_of_mem_drop hc)) ?_ hend)
      rw [List.length_drop]
      omega
    · rename_i hbefore
      have hzero : WholeDigits ['0'] :=
        ⟨List.cons_ne_nil _ _, hzeros 1, fun _ => rfl⟩
      have hend : (List.replicate (-d.pointPlace).toNat '0' ++ d.digits).getLast? =
          d.digits.getLast? := List.getLast?_append_of_ne_nil _ d.digits_ne_nil
      refine .fraction hzero (fractionDigits_of_last hmod (digits_append (hzeros _) hdigits) ?_ hend)
      change (List.replicate (-d.pointPlace).toNat '0' ++ d.digits).length ≤ places
      rw [List.length_append, List.length_replicate]
      omega

end Decimal

namespace Measure

open Binary64

variable {value : Binary64} {negative : Bool} {rank : Nat}

/-! The grid of four decimals. -/

theorem reaches_of_nearest {count : Nat} (h : Nearest (count / 10000) rank) : Reaches rank (-4) := by
  have hgrid := nearest_decimalRank count (-4)
  have hpower : (count : ℚ) * 10 ^ (-4 : Int) = count / 10000 := by norm_num [div_eq_mul_inv]
  rw [hpower] at hgrid
  exact ⟨count, hgrid.unique h⟩

theorem reaches_roundedRank (rank : Nat) : Reaches (roundedRank rank) (-4) := by
  obtain ⟨count, hcount⟩ := exists_magnitude_wholeRank (scaledUp rank)
  have hdown := nearest_scaledDown (wholeRank (scaledUp rank))
  rw [hcount] at hdown
  exact reaches_of_nearest hdown

/-- From the limit of rounding on every double is a multiple of an eighth. -/
theorem reaches_of_limit (h : rank ≤ topRank) (hlimit : limitRank ≤ rank) : Reaches rank (-4) := by
  have hmagnitude := magnitude_le_magnitude h hlimit
  have heighth := step_fraction 3 (by decide)
  rw [magnitude_limitRank] at hmagnitude
  obtain ⟨count, hcount⟩ := exists_count (unitScale - 3) rank (by linarith)
  have hstep : step (unitScale - 3) = 1 / 8 := by linarith
  have hdecimals : magnitude rank = (1250 * count : Nat) / 10000 := by
    rw [hcount, hstep]
    push_cast
    ring
  have hself := Nearest.self h
  rw [hdecimals] at hself
  exact reaches_of_nearest hself

theorem reaches_rounded {h : rank ≤ topRank} (hrounded : rounded value = .signed negative rank h) :
    Reaches rank (-4) := by
  cases value with
  | nan => cases hrounded
  | signed sign place hplace =>
    by_cases hlt : place < limitRank
    · rw [rounded_signed hlt] at hrounded
      obtain ⟨-, rfl⟩ := Binary64.signed.inj hrounded
      exact reaches_roundedRank place
    · rw [rounded_of_limit (Nat.not_lt.mp hlt)] at hrounded
      obtain ⟨-, rfl⟩ := Binary64.signed.inj hrounded
      exact reaches_of_limit hplace (Nat.not_lt.mp hlt)

/-! The text. -/

/-- A magnitude with its sign in front. -/
def signedText (negative : Bool) (magnitude : List Char) : String :=
  String.ofList (if negative then '-' :: magnitude else magnitude)

theorem signedText_eq (d : Decimal) (negative : Bool) :
    (d.withSign negative).text plainLayout = signedText negative (d.positionalChars "") := rfl

theorem toRat_withSign_eq (d : Decimal) :
    (d.withSign negative).toRat =
      if negative then -(d.withSign false).toRat else (d.withSign false).toRat := by
  cases negative with
  | false => rfl
  | true => exact toRat_withSign d false

/-- From half of the last decimal on, a number is written as a canonical magnitude with its sign. -/
theorem number_of_halfStep_le (h : rank < topRank) (hle : halfStepRank ≤ rank) :
    ∃ magnitude amount, Canonical 4 magnitude ∧ 0 < amount ∧ ∀ negative,
      number (.signed negative rank h.le) = signedText negative magnitude ∧
      ratOfText? (signedText negative magnitude) = some (if negative then -amount else amount) := by
  obtain ⟨result, hresult, hrounded, hfinite, hzero⟩ := rounded_finite false h
  have hne : result ≠ 0 := fun hnone => absurd (hzero.mp hnone) (Nat.not_lt.mpr hle)
  have hnone : ¬ (result = 0 ∨ result = topRank) := not_or.mpr ⟨hne, hfinite.ne⟩
  have hsign : shortest .up false result = (shortest .up false result).withSign false :=
    shortest_sign
  refine ⟨(shortest .up false result).positionalChars "", (shortest .up false result).toRat,
    ?_, toRat_shortest_pos hresult hne, fun negative => ⟨?_, ?_⟩⟩
  · exact Decimal.canonical_positionalChars (coefficient_shortest_ne_zero hresult hne)
      (coefficient_shortest_mod hresult hne)
      (le_exponent_shortest .up false hresult hne (reaches_rounded hrounded) (by decide))
  · have hboth : rounded (.signed negative rank h.le) = .signed negative result hresult := by
      cases negative with
      | false => exact hrounded
      | true => exact (rounded_neg (x := .signed false rank h.le)).trans (congrArg neg hrounded)
    rw [number_eq_text, decimal_of_rounded hboth, if_neg hnone, shortest_sign, signedText_eq]
  · rw [← signedText_eq, ratOfText?_text, toRat_withSign_eq, ← hsign]

theorem number_of_lt_halfStep (h : rank < topRank) (hlt : rank < halfStepRank) :
    number (.signed negative rank h.le) = "0" := by
  obtain ⟨result, hresult, hrounded, -, hzero⟩ := rounded_finite negative h
  rw [number, hrounded, equals_zero_signed, decide_eq_true (hzero.mpr hlt)]
  rfl

theorem number_of_not_finite (h : value.isFinite = false) : number value = "0" := by
  cases value with
  | nan => rfl
  | signed negative rank hrank =>
    have htop : topRank ≤ rank := by simpa [isFinite] using h
    rw [number, rounded_of_limit (limitRank_closed.1.le.trans htop), h]
    simp

theorem nearest_halfStepRank : Nearest (1 / 20000) halfStepRank :=
  ⟨1 * one, 20000, by decide, by push_cast; ring, rfl⟩

/-- From the last decimal on no number is written as zero. -/
theorem number_ne_zero {q : ℚ} (hq : value.toRat? = some q) (hlow : 1 / 10000 ≤ |q|) :
    number value ≠ "0" := by
  intro hnumber
  obtain ⟨negative, rank, h, rfl, hfinite, -⟩ := toRat?_eq_some hq
  have habs := abs_of_toRat? hq hfinite
  have hle : halfStepRank ≤ rank := nearest_halfStepRank.mono (.self h) (by linarith)
  obtain ⟨magnitude, amount, -, hpos, htext⟩ :=
    number_of_halfStep_le (Nat.lt_of_le_of_ne h hfinite) hle
  obtain ⟨hwritten, hread⟩ := htext negative
  rw [← hwritten, hnumber, ratOfText?_zero, Option.some.injEq] at hread
  cases negative <;> simp at hread <;> linarith

/-- Only a number other than zero has a sign to be written. -/
theorem lt_zero_signed {h : rank ≤ topRank} (hrank : 0 < rank) :
    (Binary64.signed negative rank h).lt .zero = negative := by
  cases negative with
  | false => simp [lt, place?, zero]
  | true => simp [lt, place?, zero, hrank]

/-- Every number is written in its canonical form, and the opposite number with the opposite sign.
What is not finite is written as zero, and no finite number from the last decimal on is. -/
theorem number_canonical (value : Binary64) :
    (value.isFinite = false → number value = "0") ∧
    (∀ q, value.toRat? = some q → 1 / 10000 ≤ |q| → number value ≠ "0") ∧
    (number value = "0" ∧ number value.neg = "0" ∨
      ∃ negative magnitude amount, Canonical 4 magnitude ∧ value.lt .zero = negative ∧
        number value = signedText negative magnitude ∧
        number value.neg = signedText (!negative) magnitude ∧
        0 < amount ∧ ratOfText? (number value) = some (if negative then -amount else amount)) := by
  refine ⟨number_of_not_finite, fun q => number_ne_zero, ?_⟩
  cases value with
  | nan => exact Or.inl ⟨rfl, rfl⟩
  | signed negative rank h =>
    rcases Nat.lt_or_eq_of_le h with htop | rfl
    · rcases Nat.lt_or_ge rank halfStepRank with hlt | hle
      · exact Or.inl ⟨number_of_lt_halfStep htop hlt, number_of_lt_halfStep htop hlt⟩
      · obtain ⟨magnitude, amount, hcanonical, hpos, htext⟩ := number_of_halfStep_le htop hle
        obtain ⟨hwritten, hread⟩ := htext negative
        exact Or.inr ⟨negative, magnitude, amount, hcanonical,
          lt_zero_signed (halfStepRank_closed.1.trans_le hle), hwritten, (htext !negative).1, hpos,
          hwritten ▸ hread⟩
    · have hnone (sign : Bool) : (Binary64.signed sign topRank h).isFinite = false := by
        simp [isFinite]
      exact Or.inl ⟨number_of_not_finite (hnone _), number_of_not_finite (hnone _)⟩

/-- NaN is written as zero, and a number below zero with its sign in front of the canonical form of
the opposite number. -/
theorem number_canonical_fiveDecimals :
    number .nan = "0" ∧ number fiveDecimals = "-12.1563" ∧ number fiveDecimals ≠ "0" ∧
      ∃ magnitude, Canonical 4 magnitude ∧ number fiveDecimals = signedText true magnitude ∧
        number fiveDecimals.neg = signedText false magnitude := by
  obtain ⟨hvalue, hnumber, hnegative⟩ := fiveDecimals_closed
  have hrange : (1 / 10000 : ℚ) ≤ |-389 / 32| := by norm_num [abs_of_neg]
  have hne := (number_canonical fiveDecimals).2.1 _ hvalue hrange
  refine ⟨(number_canonical .nan).1 rfl, hnumber, hne, ?_⟩
  rcases (number_canonical fiveDecimals).2.2 with
    ⟨hzero, -⟩ | ⟨negative, magnitude, _, hcanonical, hlt, hwritten, hopposite, -⟩
  · exact (hne hzero).elim
  · obtain rfl : true = negative := hnegative.symm.trans hlt
    exact ⟨magnitude, hcanonical, hwritten, hopposite⟩

end Measure
end AnimationKit
