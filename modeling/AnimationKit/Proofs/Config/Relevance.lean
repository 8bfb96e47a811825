import AnimationKit.Export.Source
import AnimationKit.Preview.Binder
import Mathlib.Tactic.Common

/-!
The fields that matter. Two configs with the same timing and the same fields of their own family
cannot be told apart by anything that is made of them, and an absent field counts as its default
except where a preview leaves the default to its style sheet.
-/
namespace AnimationKit.Config

variable {a b config : Config} {family : Family}

/-- Both configs have the same fields of those that a family reads. -/
def AgreesOn (a b : Config) : Family → Prop
  | .fade => a.opacity = b.opacity
  | .slide => a.distance = b.distance ∧ a.axis = b.axis
  | .scale => a.scale = b.scale
  | .rotate => a.degrees = b.degrees
  | .bounce => a.distance = b.distance

/-- Both configs have the same kind and timing, and the same fields that their kind reads. -/
structure Agrees (a b : Config) : Prop where
  kind : a.kind = b.kind
  duration : a.duration = b.duration
  delay : a.delay = b.delay
  easing : a.easing = b.easing
  fields : ∀ family, a.kind = .family family → a.AgreesOn b family

/-- The config with the default in the place of every absent field. -/
def filled (config : Config) : Config :=
  { config with
    opacity := some (config.opacity.getD Defaults.opacity)
    distance := some (config.distance.getD Defaults.distance)
    axis := some (config.axis.getD Defaults.axis)
    scale := some (config.scale.getD Defaults.scale)
    degrees := some (config.degrees.getD Defaults.degrees) }

/-! Nothing reads a field of another family. -/

theorem validate_congr (h : a.Agrees b) : a.validate = b.validate := by
  have hfamily : ∀ family, a.kind = .family family →
      a.validateFamily family = b.validateFamily family := by
    intro family hk
    have hfields := h.fields family hk
    cases family with
    | fade => simp only [validateFamily, show a.opacity = b.opacity from hfields]
    | slide => simp only [validateFamily, hfields.1]
    | scale => simp only [validateFamily, show a.scale = b.scale from hfields]
    | rotate => simp only [validateFamily, show a.degrees = b.degrees from hfields]
    | bounce => simp only [validateFamily, show a.distance = b.distance from hfields]
  unfold validate
  rw [← h.duration, ← h.delay, ← h.kind]
  cases hk : a.kind with
  | family family => simp only [hfamily family hk]
  | unsupported name => rfl

theorem motion_congr (h : a.AgreesOn b family) :
    Motion.ofConfig a family = Motion.ofConfig b family := by
  cases family with
  | fade => simp only [Motion.ofConfig, show a.opacity = b.opacity from h]
  | slide => simp only [Motion.ofConfig, h.1, h.2]
  | scale => simp only [Motion.ofConfig, show a.scale = b.scale from h]
  | rotate => simp only [Motion.ofConfig, show a.degrees = b.degrees from h]
  | bounce => simp only [Motion.ofConfig, show a.distance = b.distance from h]

theorem animation_congr (h : a.Agrees b) : Animation.ofConfig a = Animation.ofConfig b := by
  unfold Animation.ofConfig
  rw [← validate_congr h, ← h.duration, ← h.delay, ← h.easing, ← h.kind]
  cases hk : a.kind with
  | family family => simp only [motion_congr (h.fields family hk)]
  | unsupported name => rfl

theorem token_congr (h : a.Agrees b) : Preview.token? a = Preview.token? b := by
  unfold Preview.token?
  rw [← h.kind]
  cases hk : a.kind with
  | unsupported name => rfl
  | family family =>
    have hfields := h.fields family hk
    cases family with
    | slide => simp only [Preview.familyToken, hfields.1, hfields.2]
    | _ => rfl

theorem familyProperties_congr (h : a.AgreesOn b family) :
    Preview.familyProperties a family = Preview.familyProperties b family := by
  cases family with
  | fade => simp only [Preview.familyProperties, show a.opacity = b.opacity from h]
  | slide =>
    simp only [Preview.familyProperties, Preview.familyProperties.distanceProperty, h.1]
  | scale => simp only [Preview.familyProperties, show a.scale = b.scale from h]
  | rotate => simp only [Preview.familyProperties, show a.degrees = b.degrees from h]
  | bounce =>
    simp only [Preview.familyProperties, Preview.familyProperties.distanceProperty,
      show a.distance = b.distance from h]

theorem properties_congr (h : a.Agrees b) : Preview.properties a = Preview.properties b := by
  have htiming : Preview.timingProperties a = Preview.timingProperties b := by
    funext family
    simp only [Preview.timingProperties, h.duration, h.delay, h.easing]
  unfold Preview.properties
  rw [htiming, ← h.kind]
  cases hk : a.kind with
  | family family => simp only [familyProperties_congr (h.fields family hk)]
  | unsupported name => rfl

/-- A binder makes the same calls and reports for both configs. -/
theorem apply_congr (h : a.Agrees b) (binder : Binder) : binder.apply a = binder.apply b := by
  unfold Binder.apply
  rw [animation_congr h, properties_congr h, token_congr h, h.kind]

/-! A default in the place of an absent field changes nothing. -/

/-- Every default passes the check of its field. -/
theorem defaults_valid : Easing.inUnit Defaults.opacity.start = true ∧
    Easing.inUnit Defaults.opacity.stop = true ∧ Defaults.distance.isFinite = true ∧
    isPositive Defaults.scale = true ∧ Defaults.degrees.start.isFinite = true ∧
    Defaults.degrees.stop.isFinite = true := by decide +kernel

theorem filled_kind : config.filled.kind = config.kind := rfl

theorem validate_filled : config.filled.validate = config.validate := by
  obtain ⟨hstart, hstop, hdistance, hscale, hfrom, hto⟩ := defaults_valid
  have hfamily : ∀ family, config.filled.validateFamily family = config.validateFamily family := by
    intro family
    cases family with
    | fade => cases ho : config.opacity <;> simp [validateFamily, filled, ho, hstart, hstop]
    | slide => cases hd : config.distance <;> simp [validateFamily, filled, hd, hdistance]
    | scale => cases hs : config.scale <;> simp [validateFamily, filled, hs, hscale]
    | rotate => cases hd : config.degrees <;> simp [validateFamily, filled, hd, hfrom, hto]
    | bounce => cases hd : config.distance <;> simp [validateFamily, filled, hd, hdistance]
  unfold validate
  rw [filled_kind]
  cases config.kind with
  | family family =>
    simp only [hfamily]
    rfl
  | unsupported name => rfl

/-- The default distance has the direction of an absent one. -/
theorem direction_filled :
    Direction.ofDistance config.filled.distance = Direction.ofDistance config.distance := by
  have hdefault : Defaults.distance.lt .zero = false := by decide +kernel
  cases hd : config.distance <;> simp [filled, Direction.ofDistance, hd, hdefault]

theorem motion_filled (family : Family) :
    Motion.ofConfig config.filled family = Motion.ofConfig config family := by
  cases family with
  | slide =>
    unfold Motion.ofConfig
    rw [direction_filled]
    rfl
  | _ => rfl

theorem animation_filled : Animation.ofConfig config.filled = Animation.ofConfig config := by
  unfold Animation.ofConfig
  rw [validate_filled, filled_kind]
  cases config.kind with
  | family family =>
    simp only [motion_filled]
    rfl
  | unsupported name => rfl

theorem token_filled : Preview.token? config.filled = Preview.token? config := by
  have hfamily : ∀ family,
      Preview.familyToken config.filled family = Preview.familyToken config family := by
    intro family
    cases family with
    | slide =>
      unfold Preview.familyToken
      rw [direction_filled]
      rfl
    | _ => rfl
  unfold Preview.token?
  rw [filled_kind]
  cases config.kind with
  | family family => simp only [hfamily]
  | unsupported name => rfl

/-! What does not tell two configs apart. -/

/-- Both configs have the same checks, the same animation, class and exports, or the same error. -/
structure SameAnimation (a b : Config) : Prop where
  validate : a.validate = b.validate
  animation : Animation.ofConfig a = Animation.ofConfig b
  token : Preview.token? a = Preview.token? b
  source : ∀ format settings, a.source format settings = b.source format settings
  reactSource : ∀ wanted, a.reactSource wanted = b.reactSource wanted
  cssSource : a.cssSource = b.cssSource

/-- A preview of either config sets the same properties, and every binder treats both alike, down to
the order of its calls. -/
structure SamePreview (a b : Config) : Prop where
  properties : Preview.properties a = Preview.properties b
  bind : ∀ (binder : Binder) target, binder.bind a target = binder.bind b target
  rebind : ∀ binder : Binder, binder.rebind a = binder.rebind b

theorem sameAnimation_of_agrees_filled (h : a.filled.Agrees b.filled) : a.SameAnimation b := by
  have hanimation : Animation.ofConfig a = Animation.ofConfig b := by
    rw [← animation_filled, animation_congr h, animation_filled]
  have hvalidate : a.validate = b.validate := by
    rw [← validate_filled, validate_congr h, validate_filled]
  have htoken : Preview.token? a = Preview.token? b := by
    rw [← token_filled, token_congr h, token_filled]
  refine ⟨hvalidate, hanimation, htoken, fun format settings => ?_, fun wanted => ?_, ?_⟩
  · rw [Config.source, hanimation, Config.source]
  · rw [Config.reactSource, hanimation, Config.reactSource]
  · rw [Config.cssSource, hanimation, Config.cssSource]

theorem samePreview_of_agrees (h : a.Agrees b) : a.SamePreview b := by
  refine ⟨properties_congr h, fun binder target => ?_, fun binder => ?_⟩
  · simp only [Binder.bind, apply_congr h]
  · simp only [Binder.rebind, apply_congr h]

/-- Fields of other families never matter, whatever they hold. An absent field is the same as its
default for every check, class and export, and two configs with the same fields of their own family
are previewed by the same calls. -/
theorem same_of_agrees (a b : Config) :
    (a.filled.Agrees b.filled → a.SameAnimation b) ∧ (a.Agrees b → a.SamePreview b) :=
  ⟨sameAnimation_of_agrees_filled, samePreview_of_agrees⟩

/-- A slide that leaves everything to the defaults. -/
def bareSlide : Config := { kind := .family .slide, duration := .ofNat 1 }

/-- The same slide with fields of other families that no check would let pass. -/
def clutteredSlide : Config :=
  { bareSlide with
    opacity := some ⟨.nan, Binary64.infinity true⟩
    scale := some .zero
    degrees := some ⟨.infinity false, .nan⟩ }

/-- That slide with its defaults written out. -/
def explicitSlide : Config :=
  { clutteredSlide with distance := some (.ofNat 50), axis := some .x }

theorem same_of_agrees_clutteredSlide :
    bareSlide.filled.Agrees explicitSlide.filled ∧ bareSlide.SameAnimation explicitSlide ∧
      bareSlide.Agrees clutteredSlide ∧ bareSlide.SamePreview clutteredSlide := by
  have hfilled : bareSlide.filled.Agrees explicitSlide.filled := by
    refine ⟨rfl, rfl, rfl, rfl, ?_⟩
    rintro family ⟨⟩
    exact ⟨rfl, rfl⟩
  have hagrees : bareSlide.Agrees clutteredSlide := by
    refine ⟨rfl, rfl, rfl, rfl, ?_⟩
    rintro family ⟨⟩
    exact ⟨rfl, rfl⟩
  exact ⟨hfilled, (same_of_agrees bareSlide explicitSlide).1 hfilled, hagrees,
    (same_of_agrees bareSlide clutteredSlide).2 hagrees⟩

end AnimationKit.Config
