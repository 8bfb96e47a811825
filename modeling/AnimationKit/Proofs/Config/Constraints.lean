import AnimationKit.Proofs.Binary64.Value
import AnimationKit.Proofs.Config.Acceptance
import AnimationKit.Proofs.Config.Relevance
import AnimationKit.Proofs.Easing

/-!
The constraints on a config, as ranges of exact numbers. A config has an animation if it is in all
of them; else the first that it is not in is reported, and the animation that it has is in them, too.
-/
namespace AnimationKit

open Binary64

/-- It holds, and nothing of a lower order does. -/
def First {α : Type} (holds : α → Prop) (order : α → Nat) (a : α) : Prop :=
  holds a ∧ ∀ other, holds other → order a ≤ order other

theorem First.unique {α : Type} {holds : α → Prop} {order : α → Nat} {a b : α}
    (hone : ∀ {a b}, holds a → holds b → order a = order b → a = b)
    (ha : First holds order a) (hb : First holds order b) : a = b :=
  hone ha.1 hb.1 (Nat.le_antisymm (ha.2 b hb.1) (hb.2 a ha.1))

/-- The duration comes first, then the delay, then the field of the family. -/
def ConfigError.order : ConfigError → Nat
  | nonPositiveDuration _ => 0
  | negativeDelay _ => 1
  | opacityOutOfRange .. | nonPositiveScale _ | nonFinite _ | invalidEasing _ | unknownFormat _
  | malformed _ => 2

/-- The kind comes before all fields. -/
def AnimationError.order : AnimationError → Nat
  | unsupportedKind _ => 0
  | invalidConfig cause => cause.order + 1

/-- Both ends are in a range. -/
def Span.Within (span : Span) (range : Set ℚ) : Prop :=
  span.start.Within range ∧ span.stop.Within range

namespace Config

variable {config : Config} {family : Family} {value : Binary64} {span : Span}
  {cause other : ConfigError} {animation : Animation}

/-! Ranges. -/

theorem isPositive_iff : isPositive value = true ↔ value.Within (.Ioi 0) := by
  rw [isPositive, Bool.and_eq_true, isFinite_iff]
  constructor
  · rintro ⟨⟨q, hq, -⟩, hpos⟩
    exact ⟨q, hq, (lt_iff toRat?_zero hq).mp hpos⟩
  · rintro ⟨q, hq, hpos⟩
    exact ⟨⟨q, hq, trivial⟩, (lt_iff toRat?_zero hq).mpr hpos⟩

theorem isNonNegative_iff : isNonNegative value = true ↔ value.Within (.Ici 0) := by
  rw [isNonNegative, Bool.and_eq_true, isFinite_iff]
  constructor
  · rintro ⟨⟨q, hq, -⟩, hle⟩
    exact ⟨q, hq, (le_iff toRat?_zero hq).mp hle⟩
  · rintro ⟨q, hq, hle⟩
    exact ⟨⟨q, hq, trivial⟩, (le_iff toRat?_zero hq).mpr hle⟩

theorem inUnit_iff : Easing.inUnit value = true ↔ value.Within (.Icc 0 1) := by
  constructor
  · intro h
    obtain ⟨q, hq, -⟩ := isFinite_iff.mp (Easing.isFinite_of_inUnit h)
    rw [Easing.inUnit, Bool.and_eq_true, le_iff toRat?_zero hq, le_iff hq toRat?_one] at h
    exact ⟨q, hq, h⟩
  · rintro ⟨q, hq, h⟩
    rw [Easing.inUnit, Bool.and_eq_true, le_iff toRat?_zero hq, le_iff hq toRat?_one]
    exact h

/-- What a family asks of the field that it reads, if a config has it. -/
def FieldFits (config : Config) : Family → Prop
  | .fade => ∀ o ∈ config.opacity, o.Within (.Icc 0 1)
  | .slide | .bounce => ∀ d ∈ config.distance, d.Within .univ
  | .scale => ∀ s ∈ config.scale, s.Within (.Ioi 0)
  | .rotate => ∀ d ∈ config.degrees, d.Within .univ

/-- Everything that is asked of a config that is to have an animation. -/
structure InModel (config : Config) : Prop where
  kind : ∃ family, config.kind = .family family
  duration : config.duration.Within (.Ioi 0)
  delay : config.delay.Within (.Ici 0)
  field : ∀ family, config.kind = .family family → config.FieldFits family

/-! What is violated, with what is reported then. -/

/-- A field is there and does not fit. -/
def Misfit {α : Type} (field : Option α) (fits : α → Prop) (report : α → ConfigError)
    (cause : ConfigError) : Prop :=
  ∃ a, field = some a ∧ ¬ fits a ∧ cause = report a

/-- The field that a family reads does not fit; a length or an angle is reported by its name. -/
def FieldFault (config : Config) (cause : ConfigError) : Family → Prop
  | .fade => Misfit config.opacity (·.Within (.Icc 0 1))
      (fun o => .opacityOutOfRange o.start o.stop) cause
  | .slide | .bounce =>
    Misfit config.distance (·.Within .univ) (fun _ => .nonFinite "distance") cause
  | .scale => Misfit config.scale (·.Within (.Ioi 0)) .nonPositiveScale cause
  | .rotate => Misfit config.degrees (·.Within .univ) (fun _ => .nonFinite "degrees") cause

/-- A constraint on the fields is violated. -/
inductive Fault (config : Config) : ConfigError → Prop
  | duration (h : ¬ config.duration.Within (.Ioi 0)) :
      Fault config (.nonPositiveDuration config.duration)
  | delay (h : ¬ config.delay.Within (.Ici 0)) : Fault config (.negativeDelay config.delay)
  | field {family : Family} {cause : ConfigError} (hkind : config.kind = .family family)
      (h : config.FieldFault cause family) : Fault config cause

/-- A reason why a config has no animation. -/
inductive Obstacle (config : Config) : AnimationError → Prop
  | kind {name : String} (h : config.kind = .unsupported name) :
      Obstacle config (.unsupportedKind name)
  | fault {cause : ConfigError} (h : config.Fault cause) : Obstacle config (.invalidConfig cause)

section misfit

variable {α : Type} {field : Option α} {fits : α → Prop} {report : α → ConfigError}

theorem not_misfit_iff : (∀ cause, ¬ Misfit field fits report cause) ↔ ∀ a ∈ field, fits a := by
  constructor
  · intro h a ha
    by_contra hfits
    exact h _ ⟨a, ha, hfits, rfl⟩
  · rintro h cause ⟨a, ha, hfits, -⟩
    exact hfits (h a ha)

theorem Misfit.unique (h : Misfit field fits report cause) (h' : Misfit field fits report other) :
    cause = other := by
  obtain ⟨a, ha, -, rfl⟩ := h
  obtain ⟨b, hb, -, rfl⟩ := h'
  rw [Option.some.inj (ha.symm.trans hb)]

/-- A check of a field that looks at it only if it is there. -/
theorem misfit_of_check {check : α → Bool} {result : Except ConfigError Unit}
    (hcheck : ∀ a, check a = true ↔ fits a) (hnone : field = none → result = .ok ())
    (hsome : ∀ a, field = some a → result = if check a then .ok () else .error (report a)) :
    result = .error cause ↔ Misfit field fits report cause := by
  cases hfield : field with
  | none => simp [hnone hfield, Misfit]
  | some a =>
    rw [hsome a hfield]
    by_cases hfits : fits a
    · simp [(hcheck a).mpr hfits, Misfit, hfits]
    · have hno : check a = false := by simpa [hfits] using hcheck a
      simp [hno, Misfit, hfits, eq_comm]

end misfit

theorem fieldFits_iff : config.FieldFits family ↔ ∀ cause, ¬ config.FieldFault cause family := by
  cases family <;> exact not_misfit_iff.symm

theorem order_of_fieldFault (h : config.FieldFault cause family) : cause.order = 2 := by
  cases family <;> obtain ⟨_, -, -, rfl⟩ := h <;> rfl

theorem fieldFault_unique (h : config.FieldFault cause family)
    (h' : config.FieldFault other family) : cause = other := by
  cases family <;> exact Misfit.unique h h'

theorem inModel_iff : config.InModel ↔ ∀ cause, ¬ config.Obstacle cause := by
  constructor
  · intro h cause hobstacle
    cases hobstacle with
    | kind hkind =>
      obtain ⟨family, hfamily⟩ := h.kind
      simp [hfamily] at hkind
    | fault hfault =>
      cases hfault with
      | duration hduration => exact hduration h.duration
      | delay hdelay => exact hdelay h.delay
      | field hkind hfield => exact fieldFits_iff.mp (h.field _ hkind) _ hfield
  · intro h
    refine ⟨?_, ?_, ?_, ?_⟩
    · cases hkind : config.kind with
      | family family => exact ⟨family, rfl⟩
      | unsupported name => exact (h _ (.kind hkind)).elim
    · by_contra hduration
      exact h _ (.fault (.duration hduration))
    · by_contra hdelay
      exact h _ (.fault (.delay hdelay))
    · intro family hkind
      exact fieldFits_iff.mpr fun cause hfield => h _ (.fault (.field hkind hfield))

/-- No two violations have the same place in the order. -/
theorem Fault.unique (h : config.Fault cause) (h' : config.Fault other)
    (horder : cause.order = other.order) : cause = other := by
  have hfield {family : Family} {error : ConfigError} (h : config.FieldFault error family) :
      ¬ error.order = 0 ∧ ¬ error.order = 1 := by simp [order_of_fieldFault h]
  cases h with
  | duration =>
    cases h' with
    | duration => rfl
    | delay => cases horder
    | field _ h' => exact ((hfield h').1 horder.symm).elim
  | delay =>
    cases h' with
    | duration => cases horder
    | delay => rfl
    | field _ h' => exact ((hfield h').2 horder.symm).elim
  | field hkind h =>
    cases h' with
    | duration => exact ((hfield h).1 horder).elim
    | delay => exact ((hfield h).2 horder).elim
    | field hkind' h' =>
      obtain rfl := Kind.family.inj (hkind.symm.trans hkind')
      exact fieldFault_unique h h'

theorem Obstacle.unique {cause other : AnimationError} (h : config.Obstacle cause)
    (h' : config.Obstacle other) (horder : cause.order = other.order) : cause = other := by
  cases h with
  | kind hkind =>
    cases h' with
    | kind hkind' => rw [Kind.unsupported.inj (hkind.symm.trans hkind')]
    | fault hfault' => cases horder
  | fault hfault =>
    cases h' with
    | kind hkind' => cases horder
    | fault hfault' => rw [hfault.unique hfault' (Nat.succ.inj horder)]

/-! What the checks report. -/

theorem validateFamily_error_iff :
    config.validateFamily family = .error cause ↔ config.FieldFault cause family := by
  have hspan {check : Binary64 → Bool} {range : Set ℚ}
      (hcheck : ∀ x, check x = true ↔ x.Within range) (span : Span) :
      (check span.start && check span.stop) = true ↔ span.Within range := by
    rw [Bool.and_eq_true, hcheck, hcheck, Span.Within]
  cases family with
  | fade =>
    apply misfit_of_check (hspan fun _ => inUnit_iff)
    · intro h
      simp only [validateFamily, h]
    · intro o h
      simp only [validateFamily, h]
  | slide =>
    apply misfit_of_check fun _ => isFinite_iff
    · intro h
      simp only [validateFamily, h]
    · intro d h
      simp only [validateFamily, h]
  | scale =>
    apply misfit_of_check fun _ => isPositive_iff
    · intro h
      simp only [validateFamily, h]
    · intro s h
      simp only [validateFamily, h]
  | rotate =>
    apply misfit_of_check (hspan fun _ => isFinite_iff)
    · intro h
      simp only [validateFamily, h]
    · intro d h
      simp only [validateFamily, h]
  | bounce =>
    apply misfit_of_check fun _ => isFinite_iff
    · intro h
      simp only [validateFamily, h]
    · intro d h
      simp only [validateFamily, h]

/-- The first violation is the one that is reported. -/
theorem first_of_validate (h : config.validate = .error cause) :
    First config.Fault ConfigError.order cause := by
  unfold validate at h
  split at h
  · rename_i hduration
    obtain rfl := Except.error.inj h
    refine ⟨.duration fun hwithin => ?_, fun _ _ => Nat.zero_le _⟩
    simp [isPositive_iff.mpr hwithin] at hduration
  · rename_i hduration
    have hduration' : config.duration.Within (.Ioi 0) := by
      simpa [isPositive_iff] using hduration
    split at h
    · rename_i hdelay
      obtain rfl := Except.error.inj h
      refine ⟨.delay fun hwithin => ?_, fun other hother => ?_⟩
      · simp [isNonNegative_iff.mpr hwithin] at hdelay
      · cases hother with
        | duration hnot => exact (hnot hduration').elim
        | delay => exact Nat.le_refl _
        | field _ hfield =>
          rw [order_of_fieldFault hfield]
          exact Nat.le_succ 1
    · rename_i hdelay
      have hdelay' : config.delay.Within (.Ici 0) := by
        simpa [isNonNegative_iff] using hdelay
      split at h
      · rename_i family hkind
        have hfield := validateFamily_error_iff.mp h
        refine ⟨.field hkind hfield, fun other hother => ?_⟩
        rw [order_of_fieldFault hfield]
        cases hother with
        | duration hnot => exact (hnot hduration').elim
        | delay hnot => exact (hnot hdelay').elim
        | field _ hother => exact Nat.le_of_eq (order_of_fieldFault hother).symm
      · simp at h

theorem not_fault_of_validate (h : config.validate = .ok ()) : ¬ config.Fault cause := by
  unfold validate at h
  split at h
  · simp at h
  · rename_i hduration
    split at h
    · simp at h
    · rename_i hdelay
      intro hfault
      cases hfault with
      | duration hnot => exact hnot (by simpa [isPositive_iff] using hduration)
      | delay hnot => exact hnot (by simpa [isNonNegative_iff] using hdelay)
      | field hkind hfield =>
        rw [hkind] at h
        dsimp only at h
        rw [validateFamily_error_iff.mpr hfield] at h
        simp at h

theorem validate_error_iff :
    config.validate = .error cause ↔ First config.Fault ConfigError.order cause := by
  refine ⟨first_of_validate, fun hfirst => ?_⟩
  cases hvalid : config.validate with
  | ok _ => exact (not_fault_of_validate hvalid hfirst.1).elim
  | error other => rw [hfirst.unique Fault.unique (first_of_validate hvalid)]

theorem validate_ok_iff : config.validate = .ok () ↔ ∀ cause, ¬ config.Fault cause := by
  refine ⟨fun h _ => not_fault_of_validate h, fun hnone => ?_⟩
  cases hvalid : config.validate with
  | ok _ => rfl
  | error cause => exact (hnone cause (first_of_validate hvalid).1).elim

theorem first_of_ofConfig {cause : AnimationError}
    (h : Animation.ofConfig config = .error cause) :
    First config.Obstacle AnimationError.order cause := by
  cases cause with
  | unsupportedKind name => exact ⟨.kind (unsupportedKind_iff.mp h), fun _ _ => Nat.zero_le _⟩
  | invalidConfig cause =>
    obtain ⟨⟨family, hkind⟩, hvalid⟩ := invalidConfig_iff.mp h
    obtain ⟨hfault, hfirst⟩ := first_of_validate hvalid
    refine ⟨.fault hfault, fun other hother => ?_⟩
    cases hother with
    | kind hkind' => simp [hkind] at hkind'
    | fault hother => exact Nat.succ_le_succ (hfirst _ hother)

theorem not_obstacle_of_ok {cause : AnimationError}
    (h : Animation.ofConfig config = .ok animation) : ¬ config.Obstacle cause := by
  obtain ⟨family, hkind⟩ := Animation.kind_of_ok h
  intro hobstacle
  cases hobstacle with
  | kind hkind' => simp [hkind] at hkind'
  | fault hfault => exact not_fault_of_validate (validate_of_ok h) hfault

theorem animation_error_iff {cause : AnimationError} :
    Animation.ofConfig config = .error cause ↔
      First config.Obstacle AnimationError.order cause := by
  refine ⟨first_of_ofConfig, fun hfirst => ?_⟩
  cases hanimation : Animation.ofConfig config with
  | ok animation => exact (not_obstacle_of_ok hanimation hfirst.1).elim
  | error other => rw [hfirst.unique Obstacle.unique (first_of_ofConfig hanimation)]

theorem animation_ok_iff :
    (∃ animation, Animation.ofConfig config = .ok animation) ↔ config.InModel := by
  rw [inModel_iff]
  constructor
  · rintro ⟨animation, h⟩ cause
    exact not_obstacle_of_ok h
  · intro hnone
    cases hanimation : Animation.ofConfig config with
    | ok animation => exact ⟨animation, rfl⟩
    | error cause => exact (hnone cause (first_of_ofConfig hanimation).1).elim

end Config

/-! The animation of a config. -/

namespace Direction

/-- The side from which a slide enters. -/
def side : Axis → Direction → String
  | .x, negative => "left"
  | .x, positive => "right"
  | .y, negative => "top"
  | .y, positive => "bottom"

def sign : Direction → ℚ
  | negative => -1
  | positive => 1

end Direction

namespace Motion

/-- The family that moves in this way. -/
def family : Motion → Family
  | fade _ => .fade
  | slide .. => .slide
  | scale _ => .scale
  | rotate _ => .rotate
  | bounce _ => .bounce

/-- Every number of a motion is in its range; a length has no sign. -/
def InRange : Motion → Prop
  | fade opacity => opacity.Within (.Icc 0 1)
  | slide _ distance _ => distance.Within (.Ici 0)
  | scale start => start.Within (.Ioi 0)
  | rotate degrees => degrees.Within .univ
  | bounce height => height.Within (.Ici 0)

end Motion

/-- An animation has the family and the timing of a config, its numbers are in range, and a slide
enters from the side that the class of the config names, by the distance that is given. -/
structure Animation.Fulfils (animation : Animation) (config : Config) : Prop where
  kind : config.kind = .family animation.family
  timing : animation.timing = ⟨config.duration, config.delay, config.easing⟩
  family : animation.motion.family = animation.family
  inRange : animation.motion.InRange
  token : ∀ {axis distance direction}, animation.motion = .slide axis distance direction →
    Preview.token? config = some ("mf-slide-from-" ++ direction.side axis)
  distance : ∀ {axis distance direction given}, animation.motion = .slide axis distance direction →
    config.distance = some given → ∃ magnitude, distance.toRat? = some magnitude ∧
      given.toRat? = some (direction.sign * magnitude)

namespace Config

variable {config : Config} {family : Family} {animation : Animation}

theorem fits_getD {α : Type} {field : Option α} {default : α} {fits : α → Prop}
    (h : ∀ a ∈ field, fits a) (hdefault : fits default) : fits (field.getD default) := by
  cases hfield : field with
  | none => exact hdefault
  | some a => exact h a hfield

theorem within_abs {value : Binary64} (h : value.Within .univ) : value.abs.Within (.Ici 0) := by
  obtain ⟨q, hq, -⟩ := h
  exact ⟨|q|, toRat?_abs hq, abs_nonneg q⟩

theorem inRange_ofConfig (h : config.FieldFits family) :
    (Motion.ofConfig config family).InRange := by
  obtain ⟨hstart, hstop, hdistance, hscale, hfrom, hto⟩ := defaults_valid
  cases family with
  | fade => exact fits_getD h ⟨inUnit_iff.mp hstart, inUnit_iff.mp hstop⟩
  | slide => exact within_abs (fits_getD h (isFinite_iff.mp hdistance))
  | scale => exact fits_getD h (isPositive_iff.mp hscale)
  | rotate => exact fits_getD h ⟨isFinite_iff.mp hfrom, isFinite_iff.mp hto⟩
  | bounce => exact within_abs (fits_getD h (isFinite_iff.mp hdistance))

theorem token_of_slide {axis : Axis} {distance : Binary64} {direction : Direction}
    (hkind : config.kind = .family family)
    (hmotion : Motion.ofConfig config family = .slide axis distance direction) :
    Preview.token? config = some ("mf-slide-from-" ++ direction.side axis) := by
  have hside (axis : Axis) (direction : Direction) :
      Preview.slideToken axis direction = "mf-slide-from-" ++ direction.side axis := by
    cases axis <;> cases direction <;> rfl
  cases family with
  | slide =>
    obtain ⟨rfl, -, rfl⟩ := Motion.slide.inj hmotion
    rw [Preview.token?, hkind, ← hside]
    rfl
  | _ => cases hmotion

/-- The magnitude of a number, with the sign of its direction, is the number. -/
theorem toRat?_ofDistance {given : Binary64} {q : ℚ} (h : given.toRat? = some q) :
    q = (Direction.ofDistance (some given)).sign * |q| := by
  rw [Direction.ofDistance]
  by_cases hnegative : given.lt .zero = true
  · have hq : q < 0 := (lt_iff h toRat?_zero).mp hnegative
    rw [if_pos hnegative, Direction.sign, abs_of_neg hq, neg_one_mul, neg_neg]
  · have hq : 0 ≤ q := not_lt.mp fun hlt => hnegative ((lt_iff h toRat?_zero).mpr hlt)
    rw [if_neg hnegative, Direction.sign, abs_of_nonneg hq, one_mul]

theorem distance_of_slide {axis : Axis} {distance given : Binary64} {direction : Direction}
    (hfits : config.FieldFits family)
    (hmotion : Motion.ofConfig config family = .slide axis distance direction)
    (hgiven : config.distance = some given) : ∃ magnitude, distance.toRat? = some magnitude ∧
      given.toRat? = some (direction.sign * magnitude) := by
  cases family with
  | slide =>
    obtain ⟨-, rfl, rfl⟩ := Motion.slide.inj hmotion
    obtain ⟨q, hq, -⟩ := hfits given hgiven
    rw [hgiven, Option.getD_some]
    exact ⟨|q|, toRat?_abs hq, hq.trans (congrArg some (toRat?_ofDistance hq))⟩
  | _ => cases hmotion

theorem fulfils_of_ok (h : Animation.ofConfig config = .ok animation) :
    animation.Fulfils config := by
  have hmodel := animation_ok_iff.mp ⟨animation, h⟩
  obtain ⟨family, hkind, -, rfl⟩ := Animation.ofConfig_ok h
  have hfits := hmodel.field family hkind
  have hfamily : (Motion.ofConfig config family).family = family := by
    cases family <;> rfl
  exact ⟨hkind, rfl, hfamily, inRange_ofConfig hfits, token_of_slide hkind,
    distance_of_slide hfits⟩

/-- A config has an animation exactly if it is in the model. Else the violation that comes first is
reported, with the name or the numbers that it is about. The animation is in the model, too. -/
theorem judged_by_model (config : Config) :
    ((∃ animation, Animation.ofConfig config = .ok animation) ↔ config.InModel) ∧
      (∀ cause, Animation.ofConfig config = .error cause ↔
        First config.Obstacle AnimationError.order cause) ∧
      ∀ animation, Animation.ofConfig config = .ok animation → animation.Fulfils config :=
  ⟨animation_ok_iff, fun _ => animation_error_iff, fun _ => fulfils_of_ok⟩

/-- A slide from the left, held back by a zero with a sign, and with an opacity that no fade could
have. -/
def slideFromLeft : Config :=
  { kind := .family .slide, duration := .ofQuotient 1 4, delay := Binary64.zero.neg,
    distance := some (Binary64.ofNat 80).neg, opacity := some ⟨.nan, .infinity true⟩ }

/-- A rotation with nothing in range. -/
def endlessRotation : Config :=
  { kind := .family .rotate, duration := .infinity false, delay := (Binary64.ofNat 1).neg,
    degrees := some ⟨.nan, .zero⟩ }

theorem judged_by_model_slideFromLeft :
    (∃ animation, Animation.ofConfig slideFromLeft = .ok animation ∧ slideFromLeft.InModel ∧
      animation.Fulfils slideFromLeft) ∧
    Animation.ofConfig endlessRotation =
      .error (.invalidConfig (.nonPositiveDuration (.infinity false))) ∧
    First endlessRotation.Obstacle AnimationError.order
      (.invalidConfig (.nonPositiveDuration (.infinity false))) := by
  obtain ⟨hslide, hrotation⟩ : Animation.ofConfig slideFromLeft =
        .ok ⟨.slide, ⟨slideFromLeft.duration, slideFromLeft.delay, .named .ease⟩,
          .slide .x (.ofNat 80) .negative⟩ ∧
      Animation.ofConfig endlessRotation =
        .error (.invalidConfig (.nonPositiveDuration (.infinity false))) := by
    decide +kernel
  obtain ⟨haccepted, -, hfulfils⟩ := judged_by_model slideFromLeft
  obtain ⟨-, hrejected, -⟩ := judged_by_model endlessRotation
  exact ⟨⟨_, hslide, haccepted.mp ⟨_, hslide⟩, hfulfils _ hslide⟩, hrotation,
    (hrejected _).mp hrotation⟩

end Config
end AnimationKit
