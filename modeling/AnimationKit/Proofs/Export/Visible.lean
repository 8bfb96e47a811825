import AnimationKit.Proofs.Export.Lossless
import AnimationKit.Proofs.Measure.Rounding

/-!
What is left of a magnitude in its text. A duration and a scale are checked to be greater than zero,
but they are written with four decimals: what is less than half of the last one passes the check and
is written as zero, by both exports and by the preview.
-/
namespace AnimationKit

open Preview

variable {config : Config} {animation : Animation}

/-- Every text of the duration shows it: that of each export, and those of the properties that a
preview sets for each family. -/
structure ShowsDuration (config : Config) : Prop where
  exports : ∀ settings, ∃ css react exported parameters,
    config.source .css settings = .ok css ∧ config.source .react settings = .ok react ∧
    Css.decode? css.text = some exported ∧
    ReactComponent.decode? react.text = some (exported, parameters) ∧
    Measure.Shows config.duration exported.duration
  preview : ∀ family : Family, ∃ text,
    property config (propertyName family.name "duration") = some (text ++ "s") ∧
    Measure.Shows config.duration text

/-- Every text of the factor that a scale starts with shows it. -/
structure ShowsStart (config : Config) : Prop where
  exports : ∀ settings, ∃ css react exported text,
    config.source .css settings = .ok css ∧ config.source .react settings = .ok react ∧
    Css.decode? css.text = some exported ∧
    ReactComponent.decode? react.text = some (exported, [.number "scale" text]) ∧
    exported.keyframes.head?.map Keyframe.value = some ("scale(" ++ text ++ ")") ∧
    Measure.Shows (config.scale.getD Defaults.scale) text
  preview : ∀ start, config.scale = some start → ∃ text,
    property config (propertyName Family.scale.name "start") = some text ∧
    Measure.Shows start text

/-! What is written has passed a check. -/

namespace Config

theorem shows_of_isPositive {value : Binary64} (h : isPositive value = true) :
    Measure.Shows value (Measure.number value) := by
  obtain ⟨hfinite, hpos⟩ := Bool.and_eq_true_iff.mp h
  exact Measure.shows_number hfinite hpos

theorem isPositive_duration (h : config.validate = .ok ()) : isPositive config.duration = true := by
  cases hpositive : isPositive config.duration with
  | true => rfl
  | false => simp [validate, hpositive] at h

/-- The default of a scale would pass the check as well. -/
theorem isPositive_scale (h : config.validateFamily .scale = .ok ()) :
    isPositive (config.scale.getD Defaults.scale) = true := by
  have hdefault : isPositive Defaults.scale = true := by decide +kernel
  cases hs : config.scale with
  | none => exact hdefault
  | some start =>
    cases hpositive : isPositive start with
    | true => exact hpositive
    | false => simp [validateFamily, hs, hpositive] at h

end Config

theorem showsDuration (h : Animation.ofConfig config = .ok animation) : ShowsDuration config := by
  have hshows := Config.shows_of_isPositive (Config.isPositive_duration (Config.validate_of_ok h))
  obtain ⟨family, hkind, -, rfl⟩ := Animation.ofConfig_ok h
  constructor
  · intro settings
    obtain ⟨hcss, hreact⟩ := sources_of_ok h settings
    exact ⟨_, _, _, _, hcss, hreact, decode?_cssText _, decode?_reactSource _ _, hshows⟩
  · intro other
    exact ⟨_, property_of_timing hkind (by simp [timingProperties, Measure.seconds]), hshows⟩

theorem showsStart (h : Animation.ofConfig config = .ok animation)
    (hkind : config.kind = .family .scale) : ShowsStart config := by
  obtain ⟨family, hfamily, hvalid, rfl⟩ := Animation.ofConfig_ok h
  obtain rfl := Kind.family.inj (hkind.symm.trans hfamily)
  have hshows := Config.shows_of_isPositive (Config.isPositive_scale hvalid)
  constructor
  · intro settings
    obtain ⟨hcss, hreact⟩ := sources_of_ok h settings
    exact ⟨_, _, _, _, hcss, hreact, decode?_cssText _, decode?_reactSource _ _, rfl, hshows⟩
  · intro start hstart
    rw [hstart, Option.getD_some] at hshows
    refine ⟨_, ?_, hshows⟩
    rw [property_scale_start hkind, hstart, Option.map_some]

/-- A config without errors is written with a duration, and a scale with a start, that is a positive
number exactly if the one in the config is at least half of the last decimal. -/
structure Visible (config : Config) : Prop where
  duration : ShowsDuration config
  start : config.kind = .family .scale → ShowsStart config

theorem visible (h : Animation.ofConfig config = .ok animation) : Visible config :=
  ⟨showsDuration h, showsStart h⟩

/-- The shortest scale that is still seen, from the smallest start. -/
def smallestScale : Config :=
  { kind := .family .scale, duration := Measure.halfStep, scale := some Measure.halfStep }

theorem visible_smallestScale :
    (∃ animation, Animation.ofConfig smallestScale = .ok animation) ∧
      Measure.halfStep.le smallestScale.duration = true ∧ Visible smallestScale := by
  have hvalid : Animation.ofConfig smallestScale =
      .ok ⟨.scale, ⟨Measure.halfStep, .zero, .named .ease⟩, .scale Measure.halfStep⟩ := by
    decide +kernel
  exact ⟨⟨_, hvalid⟩, by decide +kernel, visible hvalid⟩

/-- A scale that passes every check, a tenth of the last decimal in duration and in start. -/
def vanishingScale : Config :=
  { kind := .family .scale, duration := .ofQuotient 1 100000, scale := some (.ofQuotient 1 100000) }

/-- That scale is written with no duration and from nothing. -/
theorem vanishes_vanishingScale :
    ∃ animation, Animation.ofConfig vanishingScale = .ok animation ∧
      (∀ settings, ∃ css react exported,
        vanishingScale.source .css settings = .ok css ∧
        vanishingScale.source .react settings = .ok react ∧
        Css.decode? css.text = some exported ∧
        ReactComponent.decode? react.text = some (exported, [.number "scale" "0"]) ∧
        exported.duration = "0" ∧
        exported.keyframes.head?.map Keyframe.value = some "scale(0)") ∧
      (∀ family : Family,
        property vanishingScale (propertyName family.name "duration") = some "0s") ∧
      property vanishingScale (propertyName Family.scale.name "start") = some "0" ∧
      ratOfText? "0" = some 0 := by
  have hnumber : Measure.number (.ofQuotient 1 100000) = "0" := by decide +kernel
  have hvalid : Animation.ofConfig vanishingScale =
      .ok ⟨.scale, ⟨.ofQuotient 1 100000, .zero, .named .ease⟩, .scale (.ofQuotient 1 100000)⟩ := by
    decide +kernel
  refine ⟨_, hvalid, fun settings => ?_, fun family => ?_, ?_, ratOfText?_zero⟩
  · obtain ⟨hcss, hreact⟩ := sources_of_ok hvalid settings
    refine ⟨_, _, _, hcss, hreact, decode?_cssText _, ?_, ?_, ?_⟩
    · rw [← hnumber]
      exact decode?_reactSource settings.componentName _
    · simp only [Animation.exported, hnumber]
    · have hcall : "scale(" ++ Measure.number (.ofQuotient 1 100000) ++ ")" = "scale(0)" := by
        rw [hnumber]
        rfl
      exact congrArg some hcall
  · apply property_of_timing rfl
    simp [timingProperties, vanishingScale, Measure.seconds, hnumber]
  · rw [property_scale_start rfl, ← hnumber]
    rfl

end AnimationKit
