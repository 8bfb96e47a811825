import AnimationKit.Proofs.Config.Constraints
import AnimationKit.Proofs.Decimal.Grammar

/-!
The grammar of curves: which texts denote one, and which one each of them denotes. The reader takes
exactly these texts, and reports every other one as it was given.
-/
namespace AnimationKit

open Text

variable {chars inside piece : List Char} {value : Binary64} {literal : Literal}

/-! The grammar. -/

/-- A number literal with blanks around it, and the double that it denotes. -/
def PointText (piece : List Char) (value : Binary64) : Prop :=
  ∃ inside literal, Trims piece inside ∧ Literal.Written literal inside ∧
    value = .ofLiteral literal

namespace Easing

/-- A text without blanks around it, and the curve that it denotes: the name of one, or four control
points between parentheses. -/
inductive Denoted : Easing → List Char → Prop
  | named (curve : NamedCurve) : Denoted (.named curve) curve.name.toList
  | cubicBezier {p₁ p₂ p₃ p₄ : List Char} {x₁ y₁ x₂ y₂ : Binary64} :
      PointText p₁ x₁ → PointText p₂ y₁ → PointText p₃ x₂ → PointText p₄ y₂ →
      x₁.Within (.Icc 0 1) → x₂.Within (.Icc 0 1) → y₁.Within .univ → y₂.Within .univ →
      Denoted (.cubicBezier x₁ y₁ x₂ y₂) ("cubic-bezier(".toList ++
        (p₁ ++ ',' :: (p₂ ++ ',' :: (p₃ ++ ',' :: p₄))) ++ ")".toList)

end Easing

/-! Control points. -/

namespace Literal

theorem avoids_digits (h : Digits chars) : Avoids [','] chars := by
  intro c hc hcomma
  obtain rfl := List.mem_singleton.mp hcomma
  exact absurd (h _ hc) (by decide)

theorem avoids_sign {negative : Bool} (h : Sign negative chars) : Avoids [','] chars := by
  cases h <;> decide

theorem avoids_exponent {power : Int} (h : Exponent power chars) : Avoids [','] chars := by
  cases h with
  | none => decide
  | @power mark _ _ _ hmark hsign _ hdigits =>
    have hfirst : Avoids [','] [mark] := by rcases hmark with rfl | rfl <;> decide
    exact hfirst.append ((avoids_sign hsign).append (avoids_digits hdigits))

theorem avoids_word {word : List Char} (hlower : chars.map Char.toLower = word)
    (hword : ',' ∉ word) : Avoids [','] chars := by
  intro c hc hcomma
  obtain rfl := List.mem_singleton.mp hcomma
  rw [← hlower] at hword
  exact hword (List.mem_map_of_mem (f := Char.toLower) hc)

theorem avoids_magnitude {negative : Bool} {d : Decimal} (h : Magnitude negative d chars) :
    Avoids [','] chars := by
  cases h with
  | whole _ hwhole hexponent => exact (avoids_digits hwhole).append (avoids_exponent hexponent)
  | fraction _ hwhole hfraction hexponent =>
    have hpoint : Avoids [','] ['.'] := by decide
    exact (avoids_digits hwhole).append
      (hpoint.append ((avoids_digits hfraction).append (avoids_exponent hexponent)))

/-- A literal holds none of the marks between control points. -/
theorem avoids_written (h : Written literal chars) : Avoids [','] chars := by
  cases h with
  | infinite hsign hword =>
    refine (avoids_sign hsign).append ?_
    rcases hword with hword | hword
    · exact avoids_word (lower_inf.mp hword) (by decide)
    · exact avoids_word (lower_infinity.mp hword) (by decide)
  | nan hsign hword => exact (avoids_sign hsign).append (avoids_word (lower_nan.mp hword) (by decide))
  | decimal hsign hmagnitude => exact (avoids_sign hsign).append (avoids_magnitude hmagnitude)

end Literal

theorem avoids_blanks (h : ∀ c ∈ chars, isBlank c = true) : Avoids [','] chars := by
  intro c hc hcomma
  obtain rfl := List.mem_singleton.mp hcomma
  exact absurd (h _ hc) (by decide)

theorem PointText.comma (h : PointText piece value) : ',' ∉ piece := by
  obtain ⟨inside, literal, ⟨-, before, behind, rfl, hbefore, hbehind⟩, hwritten, -⟩ := h
  exact (((avoids_blanks hbefore).append (Literal.avoids_written hwritten)).append
    (avoids_blanks hbehind)).not_mem (by simp)

theorem pointText_iff : Binary64.read? (trim piece) = some value ↔ PointText piece value := by
  rw [Binary64.read?, Option.map_eq_some_iff]
  constructor
  · rintro ⟨literal, hread, rfl⟩
    exact ⟨_, literal, trims_trim piece, Literal.read?_iff.mp hread, rfl⟩
  · rintro ⟨inside, literal, htrims, hwritten, rfl⟩
    rw [htrims.eq_trim] at hwritten
    exact ⟨literal, Literal.read?_iff.mpr hwritten, rfl⟩

theorem mapM_eq_some_iff {α β : Type} {f : α → Option β} {items : List α} {results : List β} :
    items.mapM f = some results ↔ List.Forall₂ (fun item result => f item = some result)
      items results := by
  induction items generalizing results with
  | nil => cases results <;> simp
  | cons item items ih =>
    cases results with
    | nil => simp [Option.bind_eq_some_iff]
    | cons result results => simp [Option.bind_eq_some_iff, ih]

namespace Easing

variable {easing : Easing} {text : String}

theorem inRange_iff {x₁ y₁ x₂ y₂ : Binary64} :
    (inUnit x₁ && inUnit x₂ && y₁.isFinite && y₂.isFinite) = true ↔
      x₁.Within (.Icc 0 1) ∧ x₂.Within (.Icc 0 1) ∧ y₁.Within .univ ∧ y₂.Within .univ := by
  rw [Bool.and_eq_true, Bool.and_eq_true, Bool.and_eq_true, Config.inUnit_iff, Config.inUnit_iff,
    Binary64.isFinite_iff, Binary64.isFinite_iff, and_assoc, and_assoc]

/-- Four points with commas between them are what is taken between the parentheses. -/
theorem ofPoints?_iff : ofPoints? chars = some easing ↔
    ∃ p₁ p₂ p₃ p₄ x₁ y₁ x₂ y₂, chars = p₁ ++ ',' :: (p₂ ++ ',' :: (p₃ ++ ',' :: p₄)) ∧
      PointText p₁ x₁ ∧ PointText p₂ y₁ ∧ PointText p₃ x₂ ∧ PointText p₄ y₂ ∧
      (x₁.Within (.Icc 0 1) ∧ x₂.Within (.Icc 0 1) ∧ y₁.Within .univ ∧ y₂.Within .univ) ∧
      easing = .cubicBezier x₁ y₁ x₂ y₂ := by
  constructor
  · intro h
    have hchars := intercalate_splitOn ',' chars
    unfold ofPoints? at h
    split at h
    · rename_i x₁ y₁ x₂ y₂ hpoints
      split_ifs at h with hrange
      rw [mapM_eq_some_iff] at hpoints
      generalize splitOn ',' chars = pieces at hpoints hchars
      obtain - | ⟨h₁, - | ⟨h₂, - | ⟨h₃, - | ⟨h₄, ⟨⟩⟩⟩⟩⟩ := hpoints
      rename_i p₁ p₂ p₃ p₄
      simp only [pointText_iff] at h₁ h₂ h₃ h₄
      refine ⟨p₁, p₂, p₃, p₄, x₁, y₁, x₂, y₂, ?_, h₁, h₂, h₃, h₄, inRange_iff.mp hrange,
        (Option.some.inj h).symm⟩
      rw [← hchars]
      simp [List.intercalate_cons_cons]
    · cases h
  · rintro ⟨p₁, p₂, p₃, p₄, x₁, y₁, x₂, y₂, rfl, h₁, h₂, h₃, h₄, hrange, rfl⟩
    have hpieces : splitOn ',' (p₁ ++ ',' :: (p₂ ++ ',' :: (p₃ ++ ',' :: p₄))) =
        [p₁, p₂, p₃, p₄] := by
      rw [splitOn_append h₁.comma, splitOn_append h₂.comma, splitOn_append h₃.comma,
        splitOn_of_not_mem h₄.comma]
    have hpoints : [p₁, p₂, p₃, p₄].mapM (fun piece => Binary64.read? (trim piece)) =
        some [x₁, y₁, x₂, y₂] := by
      simp [pointText_iff.mpr h₁, pointText_iff.mpr h₂, pointText_iff.mpr h₃, pointText_iff.mpr h₄]
    simp only [ofPoints?, hpieces, hpoints, if_pos (inRange_iff.mpr hrange)]

theorem ofName?_iff {curve : NamedCurve} :
    NamedCurve.ofName? chars = some curve ↔ chars = curve.name.toList := by
  constructor
  · intro h
    have hname := List.find?_some h
    simpa using (beq_iff_eq.mp hname).symm
  · rintro rfl
    cases curve <;> rfl

theorem ofTrimmed?_iff : ofTrimmed? chars = some easing ↔ Denoted easing chars := by
  have hname (curve : NamedCurve) : '(' ∉ curve.name.toList := by cases curve <;> decide
  constructor
  · intro h
    unfold ofTrimmed? at h
    split at h
    · rename_i curve hcurve
      rw [← Option.some.inj h, ofName?_iff.mp hcurve]
      exact .named curve
    · obtain ⟨inside, hinside, hpoints⟩ := Option.bind_eq_some_iff.mp h
      obtain ⟨p₁, p₂, p₃, p₄, x₁, y₁, x₂, y₂, rfl, h₁, h₂, h₃, h₄, ⟨hx₁, hx₂, hy₁, hy₂⟩, rfl⟩ :=
        ofPoints?_iff.mp hpoints
      rw [between?_eq_some_iff.mp hinside]
      exact .cubicBezier h₁ h₂ h₃ h₄ hx₁ hx₂ hy₁ hy₂
  · rintro (curve | ⟨h₁, h₂, h₃, h₄, hx₁, hx₂, hy₁, hy₂⟩)
    · rw [ofTrimmed?, ofName?_iff.mpr rfl]
    · rename_i p₁ p₂ p₃ p₄ x₁ y₁ x₂ y₂
      have hnone : NamedCurve.ofName? ("cubic-bezier(".toList ++
          (p₁ ++ ',' :: (p₂ ++ ',' :: (p₃ ++ ',' :: p₄))) ++ ")".toList) = none := by
        refine Option.eq_none_iff_forall_not_mem.mpr fun curve hcurve => hname curve ?_
        rw [← ofName?_iff.mp hcurve]
        simp
      have hinside := between?_eq_some_iff.mpr (Eq.refl ("cubic-bezier(".toList ++
        (p₁ ++ ',' :: (p₂ ++ ',' :: (p₃ ++ ',' :: p₄))) ++ ")".toList))
      have hpoints := ofPoints?_iff.mpr ⟨p₁, p₂, p₃, p₄, x₁, y₁, x₂, y₂, rfl, h₁, h₂, h₃, h₄,
        ⟨hx₁, hx₂, hy₁, hy₂⟩, rfl⟩
      rw [ofTrimmed?, hnone]
      exact Option.bind_eq_some_iff.mpr ⟨_, hinside, hpoints⟩

theorem ofText_eq_ok_iff : ofText text = .ok easing ↔ Denoted easing (trim text.toList) := by
  rw [← ofTrimmed?_iff, ofText]
  cases ofTrimmed? (trim text.toList) <;> simp

theorem ofText_eq_error {cause : ConfigError} (h : ofText text = .error cause) :
    cause = .invalidEasing text := by
  unfold ofText at h
  split at h
  · cases h
  · exact (Except.error.inj h).symm

/-- The reader takes just the texts of the grammar. The error for any other text carries it as it
was given, with the blanks around it. -/
theorem ofText_grammar (text : String) :
    (∀ easing, ofText text = .ok easing ↔
      ∃ inside, Trims text.toList inside ∧ Denoted easing inside) ∧
    ∀ cause, ofText text = .error cause ↔
      cause = .invalidEasing text ∧
        ∀ inside, Trims text.toList inside → ∀ easing, ¬ Denoted easing inside := by
  have haccepts (easing : Easing) : ofText text = .ok easing ↔
      ∃ inside, Trims text.toList inside ∧ Denoted easing inside := by
    simp only [ofText_eq_ok_iff, trims_iff, exists_eq_left]
  refine ⟨haccepts, fun cause => ⟨fun h => ⟨ofText_eq_error h, ?_⟩, ?_⟩⟩
  · intro inside htrims easing hdenoted
    have hok := (haccepts easing).mpr ⟨inside, htrims, hdenoted⟩
    rw [h] at hok
    cases hok
  · rintro ⟨rfl, hnone⟩
    cases hread : ofText text with
    | ok easing =>
      obtain ⟨inside, htrims, hdenoted⟩ := (haccepts easing).mp hread
      exact absurd hdenoted (hnone inside htrims easing)
    | error cause => rw [ofText_eq_error hread]

end Easing
end AnimationKit
