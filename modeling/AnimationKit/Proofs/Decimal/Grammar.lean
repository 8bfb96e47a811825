import AnimationKit.Proofs.Decimal.Reading
import Mathlib.Data.List.Forall2

/-!
The grammar of number literals: which texts write a number, and which number each of them writes.
The reader takes exactly these texts.
-/
namespace AnimationKit.Literal

/-! The grammar. -/

def Digits (chars : List Char) : Prop := ∀ c ∈ chars, '0' ≤ c ∧ c ≤ '9'

/-- Each letter of a word in lower or in upper case. -/
def InAnyCase (word chars : List Char) : Prop :=
  List.Forall₂ (fun letter c => c = letter ∨ c = letter.toUpper) word chars

inductive Sign : Bool → List Char → Prop
  | none : Sign false []
  | plus : Sign false ['+']
  | minus : Sign true ['-']

/-- A mark, a sign and at least one digit; or nothing. -/
inductive Exponent : Int → List Char → Prop
  | none : Exponent 0 []
  | power {mark : Char} {negative : Bool} {sign digits : List Char} : mark = 'e' ∨ mark = 'E' →
      Sign negative sign → digits ≠ [] → Digits digits →
      Exponent (if negative then -Nat.ofDigitChars 10 digits 0 else Nat.ofDigitChars 10 digits 0)
        (mark :: (sign ++ digits))

/-- Digits and an exponent; a point may stand before, among or behind the digits. -/
inductive Magnitude (negative : Bool) : Decimal → List Char → Prop
  | whole {whole exponent : List Char} {power : Int} : whole ≠ [] → Digits whole →
      Exponent power exponent →
      Magnitude negative ⟨negative, Nat.ofDigitChars 10 whole 0, power⟩ (whole ++ exponent)
  | fraction {whole fraction exponent : List Char} {power : Int} : whole ++ fraction ≠ [] →
      Digits whole → Digits fraction → Exponent power exponent →
      Magnitude negative
        ⟨negative, Nat.ofDigitChars 10 (whole ++ fraction) 0, power - fraction.length⟩
        (whole ++ '.' :: (fraction ++ exponent))

/-- A literal and a text that writes it. -/
inductive Written : Literal → List Char → Prop
  | infinite {negative : Bool} {sign word : List Char} : Sign negative sign →
      InAnyCase "inf".toList word ∨ InAnyCase "infinity".toList word →
      Written (.infinite negative) (sign ++ word)
  | nan {negative : Bool} {sign word : List Char} : Sign negative sign →
      InAnyCase "nan".toList word → Written .nan (sign ++ word)
  | decimal {negative : Bool} {sign magnitude : List Char} {d : Decimal} : Sign negative sign →
      Magnitude negative d magnitude → Written (.decimal d) (sign ++ magnitude)

variable {chars sign word whole fraction exponent digits rest : List Char} {negative : Bool}
  {c letter : Char} {power : Int} {d : Decimal} {literal : Literal}

/-! Characters. -/

theorem isDigit_iff : c.isDigit = true ↔ '0' ≤ c ∧ c ≤ '9' := by
  simp [Char.isDigit, Char.le_def]

theorem digits_iff : Digits chars ↔ ∀ c ∈ chars, c.isDigit = true := by
  simp only [Digits, isDigit_iff]

theorem toLower_eq_iff (h : letter.isLower = true) :
    c.toLower = letter ↔ c = letter ∨ c = letter.toUpper := by
  unfold Char.isLower at h
  simp only [Bool.and_eq_true, decide_eq_true_eq] at h
  unfold Char.toLower Char.toUpper
  rw [dif_pos h]
  have hlow := UInt32.le_iff_toNat_le.mp h.1
  have hhigh := UInt32.le_iff_toNat_le.mp h.2
  split
  · rename_i hc
    have hclow := UInt32.le_iff_toNat_le.mp hc.1
    have hchigh := UInt32.le_iff_toNat_le.mp hc.2
    simp [Char.ext_iff, ← UInt32.toNat_inj, UInt32.toNat_add] at *
    omega
  · simp [Char.ext_iff, ← UInt32.toNat_inj, UInt32.le_iff_toNat_le, UInt32.toNat_add] at *
    omega

theorem inAnyCase_iff (h : ∀ letter ∈ word, letter.isLower = true) :
    InAnyCase word chars ↔ chars.map Char.toLower = word := by
  unfold InAnyCase
  induction word generalizing chars with
  | nil => simp
  | cons letter word ih =>
    rw [List.forall_mem_cons] at h
    cases chars with
    | nil => simp
    | cons c chars =>
      rw [List.forall₂_cons, ih h.2, List.map_cons, List.cons.injEq, toLower_eq_iff h.1]

/-- What stands in a text behind its digits. -/
def NoDigitFirst (chars : List Char) : Prop := ∀ c ∈ chars.head?, c.isDigit = false

theorem takeWhile_digits (hwhole : ∀ c ∈ whole, c.isDigit = true) (hchars : NoDigitFirst chars) :
    (whole ++ chars).takeWhile Char.isDigit = whole ∧
      (whole ++ chars).dropWhile Char.isDigit = chars := by
  rw [List.takeWhile_append_of_pos hwhole, List.dropWhile_append_of_pos hwhole]
  cases chars with
  | nil => simp
  | cons c chars =>
    have hc : c.isDigit = false := hchars c rfl
    simp [hc]

/-! Signs and exponents. -/

theorem splitSign_append (hsign : Sign negative sign)
    (hchars : ∀ c ∈ chars.head?, c ≠ '+' ∧ c ≠ '-') :
    splitSign (sign ++ chars) = (negative, chars) := by
  cases hsign with
  | plus => rfl
  | minus => rfl
  | none =>
    cases chars with
    | nil => rfl
    | cons c chars =>
      obtain ⟨hplus, hminus⟩ := hchars c rfl
      simp [splitSign, hplus, hminus]

theorem sign_splitSign (chars : List Char) :
    ∃ sign, Sign (splitSign chars).1 sign ∧ chars = sign ++ (splitSign chars).2 := by
  unfold splitSign
  split
  · exact ⟨['+'], .plus, rfl⟩
  · exact ⟨['-'], .minus, rfl⟩
  · exact ⟨[], .none, rfl⟩

theorem ne_sign_of_isDigit (h : c.isDigit = true) : c ≠ '+' ∧ c ≠ '-' := by
  constructor <;> rintro rfl <;> exact absurd h (by decide)

theorem exponent?_iff : exponent? chars = some power ↔ Exponent power chars := by
  constructor
  · intro h
    unfold exponent? at h
    split at h
    · obtain rfl := Option.some.inj h
      exact .none
    · rename_i mark rest
      split_ifs at h with hmark
      obtain ⟨sign, hsign, hrest⟩ := sign_splitSign rest
      generalize splitSign rest = parts at h hsign hrest
      obtain ⟨negative, digits⟩ := parts
      simp only at h hsign hrest
      by_cases hdigits : digits ≠ [] ∧ digits.all Char.isDigit = true
      · rw [if_pos hdigits] at h
        rw [hrest, ← Option.some.inj h, natOfDigits_eq]
        exact .power hmark hsign hdigits.1 (digits_iff.mpr (List.all_eq_true.mp hdigits.2))
      · rw [if_neg hdigits] at h
        cases h
  · rintro (_ | ⟨hmark, hsign, hne, hdigits⟩)
    · rfl
    · rename_i mark negative sign digits
      rw [digits_iff] at hdigits
      have hfirst : ∀ c ∈ digits.head?, c ≠ '+' ∧ c ≠ '-' := fun c hc =>
        ne_sign_of_isDigit (hdigits c (List.mem_of_head? hc))
      have hall : digits.all Char.isDigit = true := List.all_eq_true.mpr hdigits
      simp [exponent?, hmark, splitSign_append hsign hfirst, hne, hall, natOfDigits_eq]

theorem noDigitFirst_exponent (h : Exponent power exponent) : NoDigitFirst exponent := by
  cases h with
  | none => simp [NoDigitFirst]
  | power hmark =>
    intro c hc
    rw [List.head?_cons, Option.mem_some] at hc
    rcases hmark with rfl | rfl <;> rw [← hc] <;> rfl

/-! Magnitudes. -/

theorem splitFraction_exponent (h : Exponent power exponent) :
    splitFraction exponent = ([], exponent) := by
  cases h with
  | none => rfl
  | power hmark => rcases hmark with rfl | rfl <;> rfl

theorem digits_takeWhile (chars : List Char) : Digits (chars.takeWhile Char.isDigit) :=
  digits_iff.mpr fun _ hc => List.mem_takeWhile_imp hc

theorem magnitude_of_read (h : magnitude? negative chars = some d) :
    Magnitude negative d chars := by
  have hchars : chars = chars.takeWhile Char.isDigit ++ chars.dropWhile Char.isDigit :=
    List.takeWhile_append_dropWhile.symm
  have hwhole := digits_takeWhile chars
  unfold magnitude? at h
  generalize chars.takeWhile Char.isDigit = whole at h hchars hwhole
  generalize chars.dropWhile Char.isDigit = rest at h hchars
  cases hsplit : splitFraction rest with
  | mk fraction behind =>
    simp only [hsplit] at h
    split_ifs at h with hnone
    obtain ⟨power, hpower, rfl⟩ := Option.map_eq_some_iff.mp h
    have hexponent := exponent?_iff.mp hpower
    have hne : whole ++ fraction ≠ [] := by simpa using hnone
    rw [natOfDigits_eq, hchars]
    unfold splitFraction at hsplit
    split at hsplit <;> obtain ⟨rfl, rfl⟩ := Prod.mk.inj hsplit
    · rename_i rest
      have hmagnitude : Magnitude negative _ _ :=
        .fraction hne hwhole (digits_takeWhile rest) hexponent
      rwa [List.takeWhile_append_dropWhile] at hmagnitude
    · rw [List.append_nil] at hne ⊢
      rw [List.length_nil, Int.natCast_zero, Int.sub_zero]
      exact .whole hne hwhole hexponent

theorem magnitude?_iff : magnitude? negative chars = some d ↔ Magnitude negative d chars := by
  refine ⟨magnitude_of_read, ?_⟩
  rintro (⟨hne, hwhole, hexponent⟩ | ⟨hne, hwhole, hfraction, hexponent⟩)
  · rename_i whole exponent power
    obtain ⟨htake, hdrop⟩ :=
      takeWhile_digits (digits_iff.mp hwhole) (noDigitFirst_exponent hexponent)
    simp [magnitude?, htake, hdrop, splitFraction_exponent hexponent, hne,
      exponent?_iff.mpr hexponent, natOfDigits_eq]
  · rename_i whole fraction exponent power
    have hpoint : NoDigitFirst ('.' :: (fraction ++ exponent)) := by
      rintro c hc
      obtain rfl := Option.some.inj hc
      rfl
    obtain ⟨htake, hdrop⟩ := takeWhile_digits (digits_iff.mp hwhole) hpoint
    obtain ⟨htake', hdrop'⟩ :=
      takeWhile_digits (digits_iff.mp hfraction) (noDigitFirst_exponent hexponent)
    have hnone : ¬ (whole = [] ∧ fraction = []) := by simpa using hne
    simp [magnitude?, htake, hdrop, splitFraction, htake', hdrop', hnone,
      exponent?_iff.mpr hexponent, natOfDigits_eq]

/-! Literals. -/

theorem lower_inf : InAnyCase "inf".toList word ↔ word.map Char.toLower = ['i', 'n', 'f'] :=
  inAnyCase_iff (List.all_eq_true.mp rfl)

theorem lower_infinity : InAnyCase "infinity".toList word ↔
    word.map Char.toLower = ['i', 'n', 'f', 'i', 'n', 'i', 't', 'y'] :=
  inAnyCase_iff (List.all_eq_true.mp rfl)

theorem lower_nan : InAnyCase "nan".toList word ↔ word.map Char.toLower = ['n', 'a', 'n'] :=
  inAnyCase_iff (List.all_eq_true.mp rfl)

/-- A word starts with a letter, so what stands before it is its sign. -/
theorem splitSign_word (hsign : Sign negative sign)
    (hword : (word.map Char.toLower).head? = some letter) (hletter : letter.isLower = true) :
    splitSign (sign ++ word) = (negative, word) := by
  refine splitSign_append hsign fun c hc => ?_
  rw [List.head?_map, Option.mem_def.mp hc, Option.map_some, Option.some.injEq] at hword
  constructor <;> rintro rfl <;> rw [← hword] at hletter <;> exact absurd hletter (by decide)

theorem written_of_read (h : read? chars = some literal) : Written literal chars := by
  obtain ⟨sign, hsign, hchars⟩ := sign_splitSign chars
  unfold read? at h
  generalize splitSign chars = parts at h hsign hchars
  obtain ⟨negative, rest⟩ := parts
  simp only at h hsign hchars
  rw [hchars]
  split_ifs at h with hinfinite hnan
  · rw [← Option.some.inj h]
    exact .infinite hsign (hinfinite.imp lower_inf.mpr lower_infinity.mpr)
  · rw [← Option.some.inj h]
    exact .nan hsign (lower_nan.mpr hnan)
  · obtain ⟨d, hd, rfl⟩ := Option.map_eq_some_iff.mp h
    exact .decimal hsign (magnitude?_iff.mp hd)

/-- The reader takes just the texts of the grammar, each as what it writes. -/
theorem read?_iff : read? chars = some literal ↔ Written literal chars := by
  refine ⟨written_of_read, ?_⟩
  rintro (⟨hsign, hword⟩ | ⟨hsign, hword⟩ | ⟨hsign, hmagnitude⟩)
  · rename_i negative sign word
    have hlower := hword.imp lower_inf.mp lower_infinity.mp
    have hfirst : (word.map Char.toLower).head? = some 'i' := by
      rcases hlower with h | h <;> rw [h] <;> rfl
    rw [read?, splitSign_word hsign hfirst (by decide)]
    exact if_pos hlower
  · rename_i negative sign word
    have hlower := lower_nan.mp hword
    have hfirst : (word.map Char.toLower).head? = some 'n' := by
      rw [hlower]
      rfl
    rw [read?, splitSign_word hsign hfirst (by decide)]
    simp [hlower]
  · rename_i negative sign magnitude d
    have hread := magnitude?_iff.mpr hmagnitude
    obtain ⟨c, rest, rfl, hc⟩ := head_of_magnitude? hread
    obtain ⟨hplus, hminus, hi, hn⟩ := ne_of_head hc
    have hfirst : ∀ first ∈ (c :: rest).head?, first ≠ '+' ∧ first ≠ '-' := by
      simp [hplus, hminus]
    rw [read?, splitSign_append hsign hfirst]
    simp [hi, hn, hread]

end AnimationKit.Literal
