import AnimationKit.Proofs.Json.Reading

/-! A double is read back from its text as the same double. -/
namespace AnimationKit.Json

variable {whole fraction behind : List Char} {negative : Bool} {d : Decimal}

namespace Reader

/-! The parts of a number. -/

theorem reads_wholeDigits (hdigits : ∀ c ∈ whole, c.isDigit = true) (hne : whole ≠ [])
    (hzero : whole = ['0'] ∨ whole.head? ≠ some '0')
    (hbehind : ∀ c ∈ behind.head?, c.isDigit = false) : Reads wholeDigits whole whole behind := by
  cases whole with
  | nil => exact (hne rfl).elim
  | cons c whole =>
    apply peek_bind
    simp only [List.cons_append, List.head?_cons]
    by_cases hc : c = '0'
    · subst hc
      obtain rfl : whole = [] := by simpa using hzero
      rw [if_pos rfl]
      apply next_bind
      apply peek_bind
      rw [List.nil_append]
      cases behind with
      | nil => exact Reads.pure _ _
      | cons d behind =>
        have hd : d.isDigit = false := hbehind d rfl
        simp only [List.head?_cons, hd, Bool.false_eq_true, if_false]
        exact Reads.pure _ _
    · rw [if_neg hc, if_pos (hdigits c List.mem_cons_self)]
      exact reads_digits hdigits hbehind

theorem reads_fractionDigits (hdigits : ∀ c ∈ fraction, c.isDigit = true) (hne : fraction ≠ [])
    (hbehind : ∀ c ∈ behind.head?, c.isDigit = false) :
    Reads fractionDigits ('.' :: fraction) (some fraction) behind := by
  apply peek_bind
  apply next_bind
  apply Reads.bind_last (reads_digits hdigits hbehind)
  rw [if_neg hne]
  exact Reads.pure _ _

theorem reads_fractionDigits_none (h : ∀ c ∈ behind.head?, c ≠ '.') :
    Reads fractionDigits [] none behind := by
  apply peek_bind
  rw [List.nil_append]
  split
  · rename_i hpoint
    exact (h '.' hpoint rfl).elim
  · exact Reads.pure _ _

theorem reads_powerSign : Reads powerSign [if negative then '-' else '+'] negative behind := by
  cases negative <;> exact peek_bind (next_bind (Reads.pure _ _))

theorem le_foldl_digits (value : Nat) (digits : List Char) :
    value ≤ digits.foldl (fun n c => 10 * n + (c.toNat - '0'.toNat)) value := by
  induction digits generalizing value with
  | nil => exact Nat.le_refl _
  | cons c digits ih =>
    have hrest := ih (10 * value + (c.toNat - '0'.toNat))
    rw [List.foldl_cons]
    omega

theorem digitsBeyondMaxPower?_none {value : Nat} (count : Nat) {digits : List Char}
    (h : digits.foldl (fun n c => 10 * n + (c.toNat - '0'.toNat)) value ≤ maxPower) :
    digitsBeyondMaxPower? value count digits = none := by
  induction digits generalizing value count with
  | nil => rfl
  | cons c digits ih =>
    rw [List.foldl_cons] at h
    have hhere := le_foldl_digits (10 * value + (c.toNat - '0'.toNat)) digits
    have hnot : ¬ maxPower < 10 * value + (c.toNat - '0'.toNat) := by omega
    simp only [digitsBeyondMaxPower?, hnot, if_false]
    exact ih _ h

/-- A power of ten with its mark and its sign. -/
theorem reads_power (isZero negative : Bool) {written : List Char}
    (hdigits : ∀ c ∈ written, c.isDigit = true) (hne : written ≠ [])
    (hsmall : natOfDigits written ≤ maxPower) (hbehind : ∀ c ∈ behind.head?, c.isDigit = false) :
    Reads (power isZero) ('e' :: (if negative then '-' else '+') :: written)
      (some (if negative then -(natOfDigits written : Int) else natOfDigits written)) behind := by
  obtain ⟨c, rest, rfl⟩ := List.exists_cons_of_ne_nil hne
  have hc : c.isDigit = true := hdigits c List.mem_cons_self
  have hnone : digitsBeyondMaxPower? 0 0 (c :: rest) = none := digitsBeyondMaxPower?_none 0 hsmall
  apply peek_bind
  simp only [List.cons_append, List.head?_cons, true_or, if_true]
  apply next_bind
  apply Reads.bind reads_powerSign
  apply peek_bind
  rw [List.cons_append, List.head?_cons]
  simp only [hc, if_true]
  apply get_bind
  intro offset
  apply Reads.bind_last (reads_digits hdigits hbehind)
  rw [hnone]
  exact Reads.pure _ _

theorem reads_power_none {isZero : Bool} (h : ∀ c ∈ behind.head?, c ≠ 'e' ∧ c ≠ 'E') :
    Reads (power isZero) [] none behind := by
  apply peek_bind
  rw [List.nil_append]
  cases behind with
  | nil => exact Reads.pure _ _
  | cons c behind =>
    obtain ⟨hlower, hupper⟩ := h c rfl
    simp only [List.head?_cons, hlower, hupper, or_self, if_false]
    exact Reads.pure _ _

/-- A number with a fraction or a power of ten denotes the double nearest to it. -/
theorem reads_unsigned (fraction : Option (List Char)) (exponent : Option Int)
    {point mark : List Char} {value : Binary64}
    (hwhole : Reads wholeDigits whole whole (point ++ mark ++ behind))
    (hpoint : Reads fractionDigits point fraction (mark ++ behind))
    (hmark : ∀ isZero, Reads (power isZero) mark exponent behind)
    (hfraction : (fraction.isNone && exponent.isNone) = false)
    (hvalue : Binary64.ofDecimal ⟨negative, natOfDigits (whole ++ fraction.getD []),
      exponent.getD 0 - (fraction.getD []).length⟩ = value)
    (hfinite : value.isFinite = true) :
    Reads (unsigned negative) (whole ++ (point ++ mark)) (.fraction value) behind := by
  apply Reads.bind hwhole
  apply Reads.bind hpoint
  apply Reads.bind_last (hmark _)
  simp only [hfraction, Bool.false_eq_true, if_false, hvalue, hfinite, if_true]
  exact Reads.pure _ _

end Reader

/-- What can stand behind a number: nothing that goes on with it. -/
def EndsNumber (behind : List Char) : Prop :=
  ∀ c ∈ behind.head?, c.isDigit = false ∧ c ≠ '.' ∧ c ≠ 'e' ∧ c ≠ 'E'

theorem endsNumber_nil : EndsNumber [] := fun c hc => by cases hc

namespace Reader

variable {value : Binary64} {d : Decimal}

theorem reads_fraction (hdigits : ∀ c ∈ whole, c.isDigit = true) (hne : whole ≠ [])
    (hzero : whole = ['0'] ∨ whole.head? ≠ some '0')
    (hfraction : ∀ c ∈ fraction, c.isDigit = true) (hfractionNe : fraction ≠ [])
    (hvalue : Binary64.ofDecimal ⟨negative, natOfDigits (whole ++ fraction), -fraction.length⟩ =
      value)
    (hfinite : value.isFinite = true) (hbehind : EndsNumber behind) :
    Reads (unsigned negative) (whole ++ '.' :: fraction) (.fraction value) behind := by
  have hpoint : ∀ c ∈ ('.' :: (fraction ++ behind)).head?, c.isDigit = false :=
    forall_head? (by decide)
  have hparts : Reads (unsigned negative) (whole ++ ('.' :: fraction ++ [])) (.fraction value)
      behind := by
    apply reads_unsigned (some fraction) none
    · rw [List.append_nil, List.cons_append]
      exact reads_wholeDigits hdigits hne hzero hpoint
    · exact reads_fractionDigits hfraction hfractionNe fun c hc => (hbehind c hc).1
    · exact fun isZero => reads_power_none fun c hc => (hbehind c hc).2.2
    · rfl
    · simpa using hvalue
    · exact hfinite
  rwa [List.append_nil] at hparts

/-- In positional notation there are digits on both sides of a point, and they write the number. -/
theorem positionalChars_eq (hzero : d.coefficient = 0 → d.exponent = 0) :
    ∃ whole fraction, d.positionalChars ".0" = whole ++ '.' :: fraction ∧
      (∀ c ∈ whole, c.isDigit = true) ∧ whole ≠ [] ∧ (whole = ['0'] ∨ whole.head? ≠ some '0') ∧
      (∀ c ∈ fraction, c.isDigit = true) ∧ fraction ≠ [] ∧
      Binary64.decimalRank (natOfDigits (whole ++ fraction)) (-fraction.length) =
        Binary64.decimalRank d.coefficient d.exponent := by
  have hdigits : ∀ c ∈ d.digits, c.isDigit = true := fun _ => Decimal.isDigit_of_mem_digits
  have hzeros : ∀ count, ∀ c ∈ List.replicate count '0', c.isDigit = true :=
    fun _ _ => Decimal.isDigit_of_mem_zeros
  have hne : d.digits ≠ [] := Decimal.digits_ne_nil
  have hplace : d.pointPlace = d.digits.length + d.exponent := rfl
  have hlength : 0 < d.digits.length := List.length_pos_iff.mpr hne
  have hhead : d.coefficient ≠ 0 → d.digits.head? ≠ some '0' := head?_toDigits
  have hsuffix : ".0".toList = ['.', '0'] := rfl
  unfold Decimal.positionalChars
  split_ifs with hexponent hinside
  · refine ⟨d.digits ++ List.replicate d.exponent.toNat '0', ['0'], by rw [hsuffix],
      fun _ => Decimal.isDigit_of_mem_append hdigits (hzeros _), by simp [hne], ?_, hzeros 1,
      by simp, ?_⟩
    · by_cases hcoefficient : d.coefficient = 0
      · left
        rw [Decimal.digits, hcoefficient, hzero hcoefficient]
        rfl
      · right
        rw [List.head?_append_of_ne_nil _ hne]
        exact hhead hcoefficient
    · have hshift := Binary64.decimalRank_mul_pow d.coefficient d.exponent (d.exponent.toNat + 1)
      have hone : d.exponent - (d.exponent.toNat + 1 : Nat) = -(['0'].length : Nat) := by
        simp
        omega
      rw [List.append_assoc, ← List.replicate_succ', natOfDigits_append_zeros,
        Decimal.natOfDigits_digits, ← hone]
      exact hshift
  · have hnonzero : d.coefficient ≠ 0 := fun h => hexponent (Int.le_of_eq (hzero h).symm)
    refine ⟨d.digits.take d.pointPlace.toNat, d.digits.drop d.pointPlace.toNat, rfl,
      fun c hc => hdigits c (List.mem_of_mem_take hc), ?_, Or.inr ?_,
      fun c hc => hdigits c (List.mem_of_mem_drop hc), ?_, ?_⟩
    · rw [ne_eq, List.take_eq_nil_iff]
      rintro (h | h)
      · omega
      · exact hne h
    · rw [List.head?_take, if_neg (by omega)]
      exact hhead hnonzero
    · rw [ne_eq, List.drop_eq_nil_iff]
      omega
    · rw [List.take_append_drop, Decimal.natOfDigits_digits, List.length_drop]
      congr 1
      omega
  · refine ⟨['0'], List.replicate (-d.pointPlace).toNat '0' ++ d.digits, rfl, hzeros 1, by simp,
      Or.inl rfl, fun _ => Decimal.isDigit_of_mem_append (hzeros _) hdigits, by simp [hne], ?_⟩
    have hwritten := natOfDigits_zeros_append d.digits ((-d.pointPlace).toNat + 1)
    rw [List.singleton_append, ← List.cons_append, ← List.replicate_succ, hwritten,
      Decimal.natOfDigits_digits, List.length_append, List.length_replicate]
    congr 1
    omega

theorem reads_positionalChars (hzero : d.coefficient = 0 → d.exponent = 0)
    (hvalue : Binary64.ofDecimal d = value) (hfinite : value.isFinite = true)
    (hbehind : EndsNumber behind) :
    Reads (unsigned d.negative) (d.positionalChars ".0") (.fraction value) behind := by
  obtain ⟨whole, fraction, htext, hdigits, hne, hstart, hfraction, hfractionNe, hrank⟩ :=
    positionalChars_eq hzero
  rw [htext]
  refine reads_fraction hdigits hne hstart hfraction hfractionNe ?_ hfinite hbehind
  rw [← hvalue, Binary64.ofDecimal_eq, Binary64.ofDecimal_eq]
  simp only [hrank]

theorem natOfDigits_toDigits (n : Nat) : natOfDigits (Nat.toDigits 10 n) = n := by
  rw [natOfDigits_eq, Nat.ofDigitChars_ten_toDigits]

/-- A power of ten as scientific notation writes it. -/
theorem reads_writtenPower (isZero : Bool) {n : Int} (h : n.natAbs ≤ maxPower)
    (hbehind : EndsNumber behind) :
    Reads (power isZero) ('e' :: (if n < 0 then '-' else '+') :: Nat.toDigits 10 n.natAbs) (some n)
      behind := by
  have hdigits : ∀ c ∈ Nat.toDigits 10 n.natAbs, c.isDigit = true :=
    fun c hc => Nat.isDigit_of_mem_toDigits (by decide) (by decide) hc
  have hpower : Reads (power isZero) _ _ behind := reads_power isZero (decide (n < 0)) hdigits
    Nat.toDigits_ne_nil (by rwa [natOfDigits_toDigits]) fun c hc => (hbehind c hc).1
  have hvalue : (if n < 0 then -(n.natAbs : Int) else n.natAbs) = n := by
    split <;> omega
  simp only [natOfDigits_toDigits, decide_eq_true_eq, hvalue] at hpower
  exact hpower

theorem reads_scientificChars (hzero : d.coefficient ≠ 0) (hvalue : Binary64.ofDecimal d = value)
    (hfinite : value.isFinite = true) (hpower : (d.pointPlace - 1).natAbs ≤ maxPower)
    (hbehind : EndsNumber behind) :
    Reads (unsigned d.negative) d.scientificChars (.fraction value) behind := by
  obtain ⟨first, rest, hdigits⟩ := List.exists_cons_of_ne_nil d.digits_ne_nil
  have hdigit : ∀ c ∈ first :: rest, c.isDigit = true :=
    fun c hc => Decimal.isDigit_of_mem_digits (hdigits ▸ hc)
  have hfirst : ∀ c ∈ [first], c.isDigit = true := by simpa using hdigit first List.mem_cons_self
  have hrest : ∀ c ∈ rest, c.isDigit = true := fun c hc => hdigit c (List.mem_cons_of_mem _ hc)
  have hstart : [first] = ['0'] ∨ [first].head? ≠ some '0' := by
    right
    have hhead := head?_toDigits hzero
    rwa [← Decimal.digits, hdigits] at hhead
  have hcoefficient : natOfDigits (first :: rest) = d.coefficient := by
    rw [← hdigits, Decimal.natOfDigits_digits]
  have hexponent : d.pointPlace - 1 - rest.length = d.exponent := by
    rw [Decimal.pointPlace, hdigits, List.length_cons]
    omega
  have hsame : (⟨d.negative, natOfDigits (first :: rest), d.pointPlace - 1 - rest.length⟩ : Decimal) =
      d := by
    rw [hcoefficient, hexponent]
  have hmark (isZero : Bool) := reads_writtenPower isZero hpower hbehind
  unfold Decimal.scientificChars
  rw [hdigits]
  dsimp only [List.take, List.drop]
  generalize hmarkText : 'e' :: (if d.pointPlace - 1 < 0 then '-' else '+') ::
    Nat.toDigits 10 (d.pointPlace - 1).natAbs = mark at hmark
  have hend : ∀ c ∈ (mark ++ behind).head?, c.isDigit = false ∧ c ≠ '.' := by
    rw [← hmarkText]
    exact forall_head? (by decide)
  rw [List.append_assoc]
  cases rest with
  | nil =>
    refine reads_unsigned none _ ?_ (reads_fractionDigits_none ?_) hmark rfl ?_ hfinite
    · exact reads_wholeDigits hfirst (by simp) hstart fun c hc => (hend c hc).1
    · exact fun c hc => (hend c hc).2
    · exact (congrArg Binary64.ofDecimal hsame).trans hvalue
  | cons c rest =>
    refine reads_unsigned (some (c :: rest)) _ ?_
      (reads_fractionDigits hrest (by simp) ?_) hmark rfl ?_ hfinite
    · exact reads_wholeDigits hfirst (by simp) hstart (forall_head? (by decide))
    · exact fun c hc => (hend c hc).1
    · exact (congrArg Binary64.ofDecimal hsame).trans hvalue

/-- What is read as a number without a sign does not start with one. -/
theorem reads_number {result : Number} {before : List Char}
    (h : Reads (unsigned false) before result behind) : Reads number before result behind := by
  apply peek_bind
  split
  · rename_i hminus
    obtain ⟨rest, hrest⟩ : ∃ rest, before ++ behind = '-' :: rest := by
      rwa [List.head?_eq_some_iff] at hminus
    obtain ⟨offset', hread⟩ := h 0
    rw [hrest] at hread
    have hfail : unsigned false ⟨'-' :: rest, 0⟩ = .error (.located .invalidNumber 1) := rfl
    rw [hfail] at hread
    contradiction
  · exact h

/-- A decimal in either notation is read as the double nearest to it. -/
theorem reads_chars (hzero : d.coefficient = 0 → d.exponent = 0)
    (hvalue : Binary64.ofDecimal d = value) (hfinite : value.isFinite = true)
    (hpower : (d.pointPlace - 1).natAbs ≤ maxPower) (hbehind : EndsNumber behind) :
    Reads number (d.chars layout) (.fraction value) behind := by
  have hmagnitude : Reads (unsigned d.negative)
      (if layout.isPositional (d.pointPlace - 1) then d.positionalChars layout.wholeSuffix
        else d.scientificChars) (.fraction value) behind := by
    split
    · exact reads_positionalChars hzero hvalue hfinite hbehind
    · rename_i hscientific
      have hcoefficient : d.coefficient ≠ 0 := by
        intro hcoefficient
        -- A zero has its one digit in front of the point.
        have hplace : d.pointPlace = 1 := by
          rw [Decimal.pointPlace, Decimal.digits, hcoefficient, hzero hcoefficient]
          rfl
        rw [hplace] at hscientific
        exact hscientific (by decide)
      exact reads_scientificChars hcoefficient hvalue hfinite hpower hbehind
  unfold Decimal.chars
  cases hnegative : d.negative with
  | false =>
    rw [hnegative] at hmagnitude
    exact reads_number hmagnitude
  | true =>
    rw [hnegative] at hmagnitude
    exact peek_bind (next_bind hmagnitude)

/-- A finite double is read back from its text. -/
theorem reads_doubleText (hfinite : value.isFinite = true) (hbehind : EndsNumber behind) :
    Reads number (doubleText value).toList (.fraction value) behind := by
  cases value with
  | nan => simp [Binary64.isFinite] at hfinite
  | signed negative rank h =>
    have htop : rank ≠ topRank := Binary64.isFinite_signed.mp hfinite
    have hvalue := Binary64.ofDecimal_shortest .even negative h
    have hrank := Binary64.decimalRank_shortest h .even negative
    rw [doubleText, if_neg htop, Decimal.text, String.toList_ofList]
    by_cases hcoefficient : (Binary64.shortest .even negative rank).coefficient = 0
    · rw [Binary64.shortest_of_coefficient h hcoefficient] at hvalue ⊢
      refine reads_chars (fun _ => rfl) hvalue hfinite ?_ hbehind
      cases negative <;> decide
    · have hbounds : -330 ≤ (Binary64.shortest .even negative rank).pointPlace ∧
          (Binary64.shortest .even negative rank).pointPlace ≤ 310 := by
        apply Binary64.pointPlace_bounds
        · rw [hrank]
          rintro rfl
          exact hcoefficient rfl
        · rwa [hrank]
      refine reads_chars (fun h => absurd h hcoefficient) hvalue hfinite ?_ hbehind
      have hmax : maxPower = 2147483647 := rfl
      omega

end Reader
end AnimationKit.Json
