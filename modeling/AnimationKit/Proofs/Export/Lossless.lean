import AnimationKit.Proofs.Export.Plain
import AnimationKit.Proofs.Preview.Parity

/-!
Both exports of an animation are read back as the same data. They share no line, and each of them
holds everything that the other one does.
-/
namespace AnimationKit

open Text

/-- What an export says of an animation: the numbers and the curve as they are written. -/
structure Exported where
  family : String
  duration : String
  delay : String
  easing : String
  keyframes : List Keyframe
deriving DecidableEq

def Animation.exported (animation : Animation) : Exported :=
  ⟨animation.family.name, Measure.number animation.timing.duration,
    Measure.number animation.timing.delay, animation.timing.easing.text, animation.keyframes⟩

/-! Decoding. -/

namespace Css

/-- Reads a percentage as a fraction. -/
def readOffset? (percentage : String) : Option Binary64 := do
  let number ← between? [] ['%'] percentage.toList
  match Literal.read? number with
  | some (.decimal d) => some (.ofDecimal { d with exponent := d.exponent - 2 })
  | _ => none

def Step.keyframe? (step : Step) : Option Keyframe :=
  (readOffset? step.percentage).map fun offset =>
    ⟨offset, step.declarations.map fun d => (d.property, d.value.render)⟩

def Value.seconds? (value : Value) : Option String :=
  (between? [] ['s'] value.render.toList).map .ofList

def Block.exported? (block : Block) : Option Exported := do
  let duration ← block.rule.duration.seconds?
  let delay ← block.rule.delay.seconds?
  let keyframes ← block.steps.mapM Step.keyframe?
  return ⟨block.name, duration, delay, block.rule.easing.render, keyframes⟩

def decode? (text : String) : Option Exported := (Block.read? text).bind Block.exported?

end Css

namespace ReactComponent

def keyframe? (frame : String × List (String × String)) : Option Keyframe :=
  (Binary64.read? frame.1.toList).map fun offset => ⟨offset, frame.2⟩

/-- The parameters of the family come behind the timing. -/
def exported? (component : ReactComponent) : Option (Exported × List Parameter) :=
  match component.parameters with
  | .word _ family :: .number _ duration :: .number _ delay :: .word _ easing :: parameters => do
    let keyframes ← component.frames.mapM keyframe?
    return (⟨family, duration, delay, easing, keyframes⟩, parameters)
  | _ => none

def decode? (text : String) : Option (Exported × List Parameter) := (read? text).bind exported?

end ReactComponent

/-! The parameters of a family as the keyframes show them. -/

def Keyframe.value (frame : Keyframe) : String := (frame.declarations.map (·.2)).headD ""

/-- Takes a unit off the end of a number, if it has one. -/
def withoutUnit (unit text : String) : String :=
  ((between? [] unit.toList text.toList).map String.ofList).getD text

def withoutMinus (text : String) : String :=
  ((between? ['-'] [] text.toList).map String.ofList).getD text

/-- The function and the argument of a call. -/
def readCall (text : String) : String × String :=
  let (function, rest) := cutFirst '(' text.toList
  (.ofList function, .ofList rest.dropLast)

namespace Exported

/-- Reads the parameters off the keyframes. A bounce has its height at the peak of its first hop. -/
def parameters? (exported : Exported) : Option (List Parameter) := do
  let family ← Family.all.find? fun f => f.name == exported.family
  match family, exported.keyframes.map Keyframe.value with
  | .fade, [start, stop] => return [.span "opacity" start stop]
  | .slide, [start, _] =>
    let (function, argument) := readCall start
    let axis ← [Axis.x, Axis.y].find? fun axis => Motion.translateFunction axis == function
    return [.word "axis" axis.name, .number "distance" (withoutUnit "px" argument)]
  | .scale, [start, _] => return [.number "scale" (readCall start).2]
  | .rotate, [start, stop] =>
    return [.span "degrees" (withoutUnit "deg" (readCall start).2)
      (withoutUnit "deg" (readCall stop).2)]
  | .bounce, [_, _, peak, _, _, _, _] =>
    return [.number "distance" (withoutMinus (withoutUnit "px" (readCall peak).2))]
  | _, _ => none

end Exported

variable {config : Config} {animation : Animation}

/-! Offsets. -/

/-- The offsets of an animation, from its start to its end. -/
structure Ascending (offsets : List Binary64) : Prop where
  first : offsets.head? = some .zero
  last : offsets.getLast? = some (.ofNat 1)
  order : offsets.Pairwise fun a b => a.lt b = true

theorem offsets_keyframes (motion : Motion) :
    motion.keyframes.map (·.offset) = [.zero, .ofNat 1] ∨
      motion.keyframes.map (·.offset) = bounceSteps.map (·.1) := by
  cases motion with
  | bounce height =>
    right
    rw [Motion.keyframes, List.map_map]
    rfl
  | _ => exact Or.inl rfl

theorem ascending_keyframes (motion : Motion) : Ascending (motion.keyframes.map (·.offset)) := by
  have hends : Ascending [.zero, .ofNat 1] :=
    ⟨rfl, rfl, by decide +kernel⟩
  have hsteps : Ascending (bounceSteps.map (·.1)) :=
    ⟨rfl, rfl, by decide +kernel⟩
  rcases offsets_keyframes motion with h | h
  · rw [h]
    exact hends
  · rw [h]
    exact hsteps

theorem offset_mem {motion : Motion} {frame : Keyframe} (h : frame ∈ motion.keyframes) :
    frame.offset ∈ bounceSteps.map (·.1) := by
  have hmem : frame.offset ∈ motion.keyframes.map (·.offset) := List.mem_map_of_mem h
  rcases offsets_keyframes motion with ho | ho
  · rw [ho] at hmem
    have hends : ∀ offset ∈ [Binary64.zero, .ofNat 1], offset ∈ bounceSteps.map (·.1) := by
      decide +kernel
    exact hends _ hmem
  · rwa [ho] at hmem

/-- Both ways to write an offset are read back. -/
theorem read_offset : ∀ offset ∈ bounceSteps.map (·.1),
    Css.readOffset? (Measure.percent offset) = some offset ∧
      Binary64.read? (Measure.number offset).toList = some offset := by
  decide +kernel

/-! Decoding what was exported. -/

theorem keyframe?_cssStep {motion : Motion} {frame : Keyframe} (h : frame ∈ motion.keyframes) :
    (Animation.cssStep frame).keyframe? = some frame := by
  have hoffset := (read_offset frame.offset (offset_mem h)).1
  have hdeclarations : (Animation.cssStep frame).declarations.map
      (fun d => (d.property, d.value.render)) = frame.declarations := by
    rw [Animation.cssStep, List.map_map]
    exact List.map_id _
  rw [Css.Step.keyframe?, hdeclarations, Animation.cssStep, hoffset]
  rfl

theorem seconds?_seconds (value : Binary64) :
    (Css.Value.literal (Measure.seconds value)).seconds? = some (Measure.number value) := by
  have hread : between? [] ['s'] (Measure.seconds value).toList =
      some (Measure.number value).toList := by
    rw [Measure.seconds, String.toList_append]
    exact Css.between?_suffix _ _
  rw [Css.Value.seconds?, Css.Value.render, hread, Option.map_some, String.ofList_toList]

theorem decode?_cssText (animation : Animation) :
    Css.decode? animation.cssText = some animation.exported := by
  have hkeyframes : (animation.keyframes.map Animation.cssStep).mapM Css.Step.keyframe? =
      some animation.keyframes :=
    mapM_read fun _ => keyframe?_cssStep
  rw [Css.decode?, Animation.cssText, Css.read?_render (plain_cssBlock animation),
    Option.bind_some]
  simp only [Css.Block.exported?, Animation.cssBlock, seconds?_seconds, hkeyframes,
    Option.bind_eq_bind, Option.bind_some]
  rfl

theorem keyframe?_frame {motion : Motion} {frame : Keyframe} (h : frame ∈ motion.keyframes) :
    ReactComponent.keyframe? (Measure.number frame.offset, frame.declarations) = some frame := by
  have hoffset := (read_offset frame.offset (offset_mem h)).2
  rw [ReactComponent.keyframe?, hoffset]
  rfl

theorem decode?_reactSource (wanted : Option String) (animation : Animation) :
    ReactComponent.decode? (animation.reactSource wanted).text =
      some (animation.exported, animation.motion.parameters) := by
  have hplain := plain_ofAnimation (avoids_componentName wanted animation) animation
  have hkeyframes : (animation.keyframes.map fun frame =>
      (Measure.number frame.offset, frame.declarations)).mapM ReactComponent.keyframe? =
        some animation.keyframes :=
    mapM_read fun _ => keyframe?_frame
  rw [ReactComponent.decode?, Animation.reactSource, ReactComponent.read?_render hplain,
    Option.bind_some]
  simp only [ReactComponent.exported?, ReactComponent.ofAnimation, ReactComponent.timingParameters,
    List.cons_append, List.nil_append, hkeyframes, Option.bind_eq_bind, Option.bind_some]
  rfl

/-! The parameters that the keyframes show. -/

theorem withoutUnit_of_unit (unit number : String) : withoutUnit unit (number ++ unit) = number := by
  rw [withoutUnit, String.toList_append, Css.between?_suffix, Option.map_some, Option.getD_some,
    String.ofList_toList]

theorem withoutUnit_length (value : Binary64) :
    withoutUnit "px" (Measure.length value) = Measure.number value := by
  unfold Measure.length
  split
  · rename_i hzero
    rw [hzero]
    decide
  · exact withoutUnit_of_unit _ _

theorem withoutMinus_number (value : Binary64) :
    withoutMinus (Measure.number value.abs.neg) = Measure.number value.abs := by
  have hzero : withoutMinus "0" = "0" := by decide
  rcases Measure.number_neg_abs value with ⟨hneg, hpos⟩ | hneg
  · rw [hneg, hpos, hzero]
  · have hread : between? ['-'] [] ("-" ++ Measure.number value.abs).toList =
        some (Measure.number value.abs).toList := by
      simp [between?]
    rw [hneg, withoutMinus, hread, Option.map_some, Option.getD_some, String.ofList_toList]

theorem readCall_call {function : String} (h : '(' ∉ function.toList) (argument : String) :
    readCall (function ++ "(" ++ argument ++ ")") = (function, argument) := by
  have hchars : (function ++ "(" ++ argument ++ ")").toList =
      function.toList ++ '(' :: (argument.toList ++ [')']) := by simp
  simp only [readCall, hchars, cutFirst_append h, List.dropLast_concat, String.ofList_toList]

theorem readCall_translate (axis : Axis) (offset : Binary64) :
    readCall (Motion.translate axis offset) =
      (Motion.translateFunction axis, Measure.length offset) := by
  have hfunction : '(' ∉ (Motion.translateFunction axis).toList := by cases axis <;> decide
  exact readCall_call hfunction _

theorem find?_family (family : Family) :
    (Family.all.find? fun f => f.name == family.name) = some family := by
  cases family <;> rfl

/-- The keyframes show every parameter. -/
theorem parameters?_exported (h : Animation.ofConfig config = .ok animation) :
    animation.exported.parameters? = some animation.motion.parameters := by
  obtain ⟨family, -, hvalid, rfl⟩ := Animation.ofConfig_ok h
  unfold Exported.parameters?
  simp only [Animation.exported, find?_family, Option.bind_eq_bind, Option.bind_some]
  cases family with
  | fade => rfl
  | slide =>
    have hfind (axis : Axis) : ([Axis.x, .y].find? fun a =>
        Motion.translateFunction a == Motion.translateFunction axis) = some axis := by
      cases axis <;> rfl
    simp only [Animation.keyframes, Motion.ofConfig, Motion.keyframes, Motion.parameters,
      List.map_cons, List.map_nil, Keyframe.value, Motion.transform, List.headD_cons,
      readCall_translate, hfind, withoutUnit_length, Option.bind_some]
    rfl
  | scale =>
    have hname : '(' ∉ "scale".toList := by decide
    have hread (argument : String) : readCall ("scale(" ++ argument ++ ")") = ("scale", argument) :=
      readCall_call hname argument
    simp only [Animation.keyframes, Motion.ofConfig, Motion.keyframes, Motion.parameters,
      List.map_cons, List.map_nil, Keyframe.value, Motion.transform, List.headD_cons, hread]
    rfl
  | rotate =>
    have hname : '(' ∉ "rotate".toList := by decide
    have hread (argument : String) :
        readCall ("rotate(" ++ argument ++ ")") = ("rotate", argument) :=
      readCall_call hname argument
    simp only [Animation.keyframes, Motion.ofConfig, Motion.keyframes, Motion.parameters,
      List.map_cons, List.map_nil, Keyframe.value, Motion.transform, List.headD_cons, hread,
      Measure.degrees, withoutUnit_of_unit]
    rfl
  | bounce =>
    have hfinite := Preview.isFinite_distance hvalid
    rw [← Binary64.isFinite_neg] at hfinite
    simp only [Animation.keyframes, Motion.ofConfig, Motion.keyframes, Motion.parameters,
      bounceSteps, List.map_cons, List.map_nil, Keyframe.value, Motion.transform, List.headD_cons,
      readCall_translate, withoutUnit_length, Binary64.mul_one hfinite, withoutMinus_number]
    rfl

/-! Both exports. -/

theorem name_injective {family other : Family} (h : family.name = other.name) : family = other := by
  have hfind := find?_family family
  rw [h, find?_family] at hfind
  exact (Option.some.inj hfind).symm

theorem sources_of_ok (h : Animation.ofConfig config = .ok animation) (settings : Settings) :
    config.source .css settings = .ok ⟨animation.cssText, []⟩ ∧
      config.source .react settings = .ok (animation.reactSource settings.componentName) := by
  rw [Config.source, Config.source, h]
  exact ⟨rfl, rfl⟩

/-- The text of an export, whatever the settings, says what the animation is. -/
theorem exported_of_source {format : ExportFormat} {settings : Settings} {source : Source}
    (h : config.source format settings = .ok source) :
    ∃ animation, Animation.ofConfig config = .ok animation ∧
      match format with
      | .css => Css.decode? source.text = some animation.exported
      | .react => ReactComponent.decode? source.text =
          some (animation.exported, animation.motion.parameters) := by
  unfold Config.source at h
  cases hanimation : Animation.ofConfig config with
  | error cause =>
    rw [hanimation] at h
    simp [Except.map] at h
  | ok animation =>
    rw [hanimation] at h
    obtain rfl := Except.ok.inj h
    refine ⟨animation, rfl, ?_⟩
    cases format with
    | css => exact decode?_cssText animation
    | react => exact decode?_reactSource settings.componentName animation

/-- Two animations have the same family, and the same texts of timing, keyframes and parameters. -/
structure Animation.SameText (animation other : Animation) : Prop where
  family : animation.family = other.family
  exported : animation.exported = other.exported
  parameters : animation.motion.parameters = other.motion.parameters

/-- Both exports of a config are read back as one and the same data, whatever the settings, and the
parameters are among what the keyframes show. So configs with the same text in one format differ in
no text of a number. -/
structure Lossless (config : Config) (animation : Animation) : Prop where
  decoded : ∀ settings, ∃ css react,
    config.source .css settings = .ok css ∧ config.source .react settings = .ok react ∧
    Css.decode? css.text = some animation.exported ∧
    ReactComponent.decode? react.text = some (animation.exported, animation.motion.parameters)
  ascending : Ascending (animation.exported.keyframes.map (·.offset))
  parameters : animation.exported.parameters? = some animation.motion.parameters
  sameText : ∀ format settings settings' other source source',
    config.source format settings = .ok source → other.source format settings' = .ok source' →
    source.text = source'.text →
      other.kind = config.kind ∧
      ∃ animation', Animation.ofConfig other = .ok animation' ∧ animation.SameText animation'

theorem lossless (h : Animation.ofConfig config = .ok animation) : Lossless config animation := by
  refine ⟨fun settings => ?_, ascending_keyframes animation.motion, parameters?_exported h, ?_⟩
  · refine ⟨⟨animation.cssText, []⟩, animation.reactSource settings.componentName, ?_, ?_,
      decode?_cssText animation, decode?_reactSource settings.componentName animation⟩
    · rw [Config.source, h]
      rfl
    · rw [Config.source, h]
      rfl
  · intro format settings settings' other source source' hsource hsource' htext
    obtain ⟨_, hanimation, hdecode⟩ := exported_of_source hsource
    obtain rfl := Except.ok.inj (h.symm.trans hanimation)
    obtain ⟨animation', hanimation', hdecode'⟩ := exported_of_source hsource'
    have hexported : animation.exported = animation'.exported := by
      cases format with
      | css =>
        simp only [htext, hdecode', Option.some.injEq] at hdecode
        exact hdecode.symm
      | react =>
        simp only [htext, hdecode', Option.some.injEq, Prod.mk.injEq] at hdecode
        exact hdecode.1.symm
    have hparameters : animation.motion.parameters = animation'.motion.parameters := by
      have hread := parameters?_exported h
      rw [hexported, parameters?_exported hanimation'] at hread
      exact (Option.some.inj hread).symm
    have hfamily : animation.family = animation'.family :=
      name_injective (congrArg Exported.family hexported)
    obtain ⟨family, hkind, -, rfl⟩ := Animation.ofConfig_ok h
    obtain ⟨family', hkind', -, rfl⟩ := Animation.ofConfig_ok hanimation'
    refine ⟨?_, _, hanimation', hfamily, hexported, hparameters⟩
    rw [hkind, hkind']
    exact congrArg Kind.family hfamily.symm

/-- A slide from the top along a curve that overshoots. -/
def overshootingSlide : Config :=
  { kind := .family .slide, duration := .ofQuotient 3 2, delay := .ofQuotient 1 4,
    easing := .cubicBezier (.ofQuotient 7 20) (.ofQuotient 3 2) (.ofQuotient 13 20)
      (Binary64.ofQuotient 1 2).neg,
    distance := some (Binary64.ofQuotient 41 2).neg, axis := some .y }

theorem lossless_overshootingSlide :
    ∃ animation, Animation.ofConfig overshootingSlide = .ok animation ∧
      Lossless overshootingSlide animation := by
  have hvalid : Animation.ofConfig overshootingSlide =
      .ok ⟨.slide, ⟨overshootingSlide.duration, overshootingSlide.delay, overshootingSlide.easing⟩,
        .ofConfig overshootingSlide .slide⟩ := by
    decide +kernel
  exact ⟨_, hvalid, lossless hvalid⟩

end AnimationKit
