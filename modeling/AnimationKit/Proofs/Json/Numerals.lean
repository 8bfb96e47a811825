import AnimationKit.Json.Skipping
import AnimationKit.Proofs.Json.Settled

/-!
A number is taken, or refused for its size. Where nobody wants the number, any size will do.
-/
namespace AnimationKit.Json

variable {text whole fraction exponent behind : List Char} {power : Int}

/-- What can stand behind the digits in front of a point. -/
theorem noDigitFirst_append (h : FractionPart fraction) (h' : Literal.Exponent power exponent)
    (hbehind : EndsNumber behind) :
    Literal.NoDigitFirst (fraction ++ exponent ++ behind) := by
  cases h with
  | point => exact forall_head? (by decide)
  | none =>
    cases h' with
    | none => exact fun c hc => (hbehind c hc).1
    | power hmark => rcases hmark with rfl | rfl <;> exact forall_head? (by decide)

/-- What can stand behind the fraction. -/
def EndsFraction (behind : List Char) : Prop := ∀ c ∈ behind.head?, c.isDigit = false ∧ c ≠ '.'

theorem endsFraction_append (h : Literal.Exponent power exponent) (hbehind : EndsNumber behind) :
    EndsFraction (exponent ++ behind) := by
  cases h with
  | none => exact fun c hc => ⟨(hbehind c hc).1, (hbehind c hc).2.1⟩
  | power hmark => rcases hmark with rfl | rfl <;> exact forall_head? (by decide)

namespace Reader

theorem takes_wholeDigits (h : WholePart whole) :
    Takes Literal.NoDigitFirst wholeDigits whole whole :=
  fun _ hend => reads_wholeDigits (Literal.digits_iff.mp h.digits) h.ne_nil h.zero hend

theorem takes_fractionDigits (h : FractionPart fraction) :
    ∃ digits, Takes EndsFraction fractionDigits fraction digits := by
  cases h with
  | none => exact ⟨none, fun _ hend => reads_fractionDigits_none fun c hc => (hend c hc).2⟩
  | point hdigits hne =>
    exact ⟨_, fun _ hend => reads_fractionDigits (Literal.digits_iff.mp hdigits) hne
      fun c hc => (hend c hc).1⟩

theorem takes_powerSign {negative : Bool} {sign : List Char} (h : Literal.Sign negative sign) :
    Takes (fun behind => ∃ c ∈ behind.head?, c.isDigit = true) powerSign sign negative := by
  intro behind hdigit
  cases h with
  | plus => exact peek_bind (next_bind (Reads.pure _ _))
  | minus => exact peek_bind (next_bind (Reads.pure _ _))
  | none =>
    obtain ⟨c, hc, hdigit⟩ := hdigit
    obtain ⟨hplus, hminus⟩ := Literal.ne_sign_of_isDigit hdigit
    apply peek_bind
    rw [List.nil_append, Option.mem_def.mp hc]
    split
    · rename_i h
      exact (hplus (Option.some.inj h)).elim
    · rename_i h
      exact (hminus (Option.some.inj h)).elim
    · exact Reads.pure _ _

theorem refuses_get {α : Type} {rest : Cursor → Reader α} (h : ∀ cursor, Refuses (rest cursor) text) :
    Refuses (get >>= rest) text :=
  fun offset => h ⟨text, offset⟩ offset

/-- A power of ten is refused only if its digits are too many, which depends on them alone. -/
theorem settled_power (isZero : Bool) (h : Literal.Exponent power exponent) :
    Settled EndsNumber (Reader.power isZero) exponent := by
  cases h with
  | none => exact .of_takes fun _ hend => reads_power_none fun c hc => (hend c hc).2.2
  | @power mark negative sign digits hmark hsign hne hdigits =>
    obtain ⟨c, rest, rfl⟩ := List.exists_cons_of_ne_nil hne
    rw [Literal.digits_iff] at hdigits
    have hc : c.isDigit = true := hdigits c List.mem_cons_self
    apply Settled.peek_bind rfl
    simp only [hmark, if_true]
    apply Settled.next_bind
    apply Settled.bind_takes (takes_powerSign hsign) fun _ _ => ⟨c, rfl, hc⟩
    apply Settled.peek_bind rfl
    simp only [hc, if_true]
    have hread : Takes EndsNumber Reader.digits (c :: rest) (c :: rest) :=
      fun _ hend => reads_digits hdigits fun d hd => (hend d hd).1
    cases hbeyond : digitsBeyondMaxPower? 0 0 (c :: rest) with
    | none =>
      refine .inl ⟨some (if negative then -(natOfDigits (c :: rest) : Int)
        else natOfDigits (c :: rest)), fun behind hend => get_bind fun cursor => ?_⟩
      apply Reads.bind_last (hread behind hend)
      rw [hbeyond]
      exact Reads.pure _ _
    | some count =>
      by_cases hzero : (negative || isZero) = true
      · refine .inl ⟨some (if negative then -(maxPower : Int) else maxPower),
          fun behind hend => get_bind fun cursor => ?_⟩
        apply Reads.bind_last (hread behind hend)
        rw [hbeyond]
        simp only [hzero, if_true]
        exact Reads.pure _ _
      · refine .inr fun behind hend => refuses_get fun cursor => ?_
        apply Refuses.of_reads (hread behind hend)
        rw [hbeyond]
        dsimp only
        rw [if_neg hzero]
        exact fun _ => ⟨_, rfl⟩

theorem settled_unsigned (negative : Bool) (hwhole : WholePart whole)
    (hfraction : FractionPart fraction) (hpower : Literal.Exponent power exponent) :
    Settled EndsNumber (unsigned negative) (whole ++ (fraction ++ exponent)) := by
  obtain ⟨digits, hdigits⟩ := takes_fractionDigits hfraction
  apply Settled.bind_takes (takes_wholeDigits hwhole)
  · exact fun _ hend => noDigitFirst_append hfraction hpower hend
  apply Settled.bind_takes hdigits
  · exact fun _ hend => endsFraction_append hpower hend
  apply Settled.bind_last (settled_power _ hpower)
  intro exponent
  dsimp only
  split
  · exact .pure _
  split_ifs
  · exact .pure _
  · exact .inr fun _ _ => .failHere

theorem head?_wholePart (h : WholePart whole) : ∃ c, whole.head? = some c ∧ c.isDigit = true := by
  obtain ⟨c, rest, rfl⟩ := List.exists_cons_of_ne_nil h.ne_nil
  exact ⟨c, rfl, Literal.digits_iff.mp h.digits c List.mem_cons_self⟩

theorem settled_number (h : Numeral text) : Settled EndsNumber number text := by
  cases h with
  | @unsigned whole fraction exponent power hwhole hfraction hpower =>
    obtain ⟨c, hc, hdigit⟩ := head?_wholePart hwhole
    have hhead : (whole ++ (fraction ++ exponent)).head? = some c := by
      rw [List.head?_append, hc]
      rfl
    apply Settled.peek_bind hhead
    split
    · rename_i hminus
      rw [Option.some.inj hminus] at hdigit
      cases hdigit
    · exact settled_unsigned false hwhole hfraction hpower
  | minus hwhole hfraction hpower =>
    apply Settled.peek_bind rfl
    exact .next_bind (settled_unsigned true hwhole hfraction hpower)

/-- A numeral starts with a minus sign or a digit. -/
theorem head?_numeral (h : Numeral text) : ∃ c, text.head? = some c ∧ startsNumber c = true := by
  cases h with
  | @unsigned whole fraction exponent power hwhole _ _ =>
    obtain ⟨c, hc, hdigit⟩ := head?_wholePart hwhole
    refine ⟨c, ?_, by simp [startsNumber, hdigit]⟩
    rw [List.head?_append, hc]
    rfl
  | minus => exact ⟨'-', rfl, rfl⟩

theorem startsNumber_of_head {c : Char} (h : Numeral text) (hc : text.head? = some c) :
    startsNumber c = true := by
  obtain ⟨d, hd, hstart⟩ := head?_numeral h
  rw [hc] at hd
  rwa [Option.some.inj hd]

/-! Numbers that nobody wants. -/

theorem takes_skipWholeDigits (h : WholePart whole) :
    Takes Literal.NoDigitFirst skipWholeDigits whole () := by
  intro behind hend
  obtain ⟨c, hc, -⟩ := head?_wholePart h
  apply peek_bind
  rw [List.head?_append, hc]
  exact Reads.bind_last (takes_wholeDigits h behind hend) (Reads.pure _ _)

theorem takes_skipFraction (h : FractionPart fraction) :
    Takes EndsFraction skipFraction fraction () := by
  intro behind hend
  cases h with
  | none =>
    apply peek_bind
    split
    · rename_i hpoint
      exact ((hend '.' hpoint).2 rfl).elim
    · exact Reads.pure _ _
  | point hdigits hne =>
    apply peek_bind
    apply next_bind
    apply Reads.bind_last (reads_digits (Literal.digits_iff.mp hdigits) fun c hc => (hend c hc).1)
    rw [if_neg hne]
    exact Reads.pure _ _

theorem takes_skipPower (h : Literal.Exponent power exponent) :
    Takes EndsNumber skipPower exponent () := by
  intro behind hend
  cases h with
  | none =>
    apply peek_bind
    rw [List.nil_append]
    cases behind with
    | nil => exact Reads.pure _ _
    | cons c behind =>
      obtain ⟨-, -, hlower, hupper⟩ := hend c rfl
      simp only [List.head?_cons, hlower, hupper, or_self, if_false]
      exact Reads.pure _ _
  | @power mark negative sign digits hmark hsign hne hdigits =>
    obtain ⟨c, rest, rfl⟩ := List.exists_cons_of_ne_nil hne
    rw [Literal.digits_iff] at hdigits
    have hc : c.isDigit = true := hdigits c List.mem_cons_self
    apply peek_bind
    simp only [List.cons_append, List.head?_cons, hmark, if_true]
    apply next_bind
    apply Reads.bind (takes_powerSign hsign _ ⟨c, rfl, hc⟩)
    apply peek_bind
    simp only [List.cons_append, List.head?_cons, hc, if_true]
    exact Reads.bind_last (reads_digits hdigits fun d hd => (hend d hd).1) (Reads.pure _ _)

theorem takes_skipDigits (hwhole : WholePart whole) (hfraction : FractionPart fraction)
    (hpower : Literal.Exponent power exponent) :
    Takes EndsNumber (do skipWholeDigits; skipFraction; skipPower)
      (whole ++ (fraction ++ exponent)) () := by
  apply Takes.bind (takes_skipWholeDigits hwhole)
  · exact fun _ hend => noDigitFirst_append hfraction hpower hend
  apply Takes.bind (takes_skipFraction hfraction)
  · exact fun _ hend => endsFraction_append hpower hend
  exact takes_skipPower hpower

theorem takes_skipNumber (h : Numeral text) : Takes EndsNumber skipNumber text () := by
  intro behind hend
  cases h with
  | @unsigned whole fraction exponent power hwhole hfraction hpower =>
    obtain ⟨c, hc, hdigit⟩ := head?_wholePart hwhole
    apply peek_bind
    rw [List.append_assoc, List.head?_append, hc]
    dsimp only
    split
    · rename_i hminus
      obtain rfl : c = '-' := Option.some.inj hminus
      cases hdigit
    · exact takes_skipDigits hwhole hfraction hpower behind hend
  | minus hwhole hfraction hpower =>
    exact peek_bind (next_bind (takes_skipDigits hwhole hfraction hpower behind hend))

end Reader
end AnimationKit.Json
