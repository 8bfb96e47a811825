import AnimationKit.Animation
import Mathlib.Tactic.Common

/-!
What an animation tells of its config: the checks that it has passed, and the parts it gave. Where
there is none, either the kind is not supported or a check has failed.
-/
namespace AnimationKit

variable {config : Config} {animation : Animation} {family : Family} {cause : ConfigError}

theorem Animation.kind_of_ok (h : Animation.ofConfig config = .ok animation) :
    ∃ family, config.kind = .family family := by
  unfold ofConfig at h
  split at h
  · simp at h
  · rename_i family hk
    exact ⟨family, hk⟩

namespace Config

theorem validate_of_ok (h : Animation.ofConfig config = .ok animation) :
    config.validate = .ok () := by
  obtain ⟨family, hkind⟩ := Animation.kind_of_ok h
  cases hvalid : config.validate with
  | error cause => simp [Animation.ofConfig, hkind, hvalid] at h
  | ok _ => rfl

theorem animation_of_validate (hkind : config.kind = .family family)
    (h : config.validate = .ok ()) : ∃ animation, Animation.ofConfig config = .ok animation := by
  simp [Animation.ofConfig, hkind, h]

theorem validate_default : Config.default.validate = .ok () := by decide +kernel

theorem animation_default : ∃ animation, Animation.ofConfig .default = .ok animation :=
  animation_of_validate rfl validate_default

theorem validateFamily_of_validate (hkind : config.kind = .family family)
    (h : config.validate = .ok ()) : config.validateFamily family = .ok () := by
  simp only [validate, hkind] at h
  split at h
  · simp at h
  · split at h
    · simp at h
    · exact h

theorem unsupportedKind_iff {name : String} :
    Animation.ofConfig config = .error (.unsupportedKind name) ↔
      config.kind = .unsupported name := by
  unfold Animation.ofConfig
  cases config.kind with
  | unsupported other => simp
  | family family => cases config.validate <;> simp

theorem invalidConfig_iff : Animation.ofConfig config = .error (.invalidConfig cause) ↔
    (∃ family, config.kind = .family family) ∧ config.validate = .error cause := by
  unfold Animation.ofConfig
  cases config.kind with
  | unsupported name => simp
  | family family => cases config.validate <;> simp

end Config

theorem Animation.ofConfig_ok (h : Animation.ofConfig config = .ok animation) :
    ∃ family, config.kind = .family family ∧ config.validateFamily family = .ok () ∧
      animation = ⟨family, ⟨config.duration, config.delay, config.easing⟩,
        .ofConfig config family⟩ := by
  obtain ⟨family, hkind⟩ := Animation.kind_of_ok h
  have hvalid := Config.validate_of_ok h
  refine ⟨family, hkind, Config.validateFamily_of_validate hkind hvalid, ?_⟩
  simp only [Animation.ofConfig, hkind, hvalid, Except.ok.injEq] at h
  exact h.symm

end AnimationKit
