import AnimationKit.Proofs.Export.Lossless
import Mathlib.Algebra.Order.Field.Basic
import Mathlib.Data.Rat.Cast.Order
import Mathlib.Tactic.FieldSimp
import Mathlib.Tactic.Linarith
import Mathlib.Tactic.NormNum

/-!
Exports as they move. Which easing there is, and whether it is one of the stretches between
keyframes or one of the whole, is read off the text: a style sheet names the curve in the rule that
runs its keyframes, and a component in the options of its effect. The two are the same motion if
there are no keyframes on the way; a bounce has some.
-/
namespace AnimationKit

open Text

variable {K : Type} [Field K] [LinearOrder K]

/-! What is seen at a moment. -/

/-- The amount of one property: of the function in its value, or of the bare value. -/
structure Pose (K : Type) where
  property : String
  function : String
  amount : K
deriving DecidableEq

/-- A keyframe with its texts read as exact numbers. -/
structure Stop where
  offset : ℚ
  poses : List (Pose ℚ)
deriving DecidableEq

def Pose.between (first last : Pose ℚ) (progress : K) : Pose K :=
  ⟨first.property, first.function, first.amount + (last.amount - first.amount) * progress⟩

/-- The poses part of the way from one keyframe to the next. -/
def Stop.between (first last : Stop) (progress : K) : List (Pose K) :=
  List.zipWith (fun a b => a.between b progress) first.poses last.poses

/-- The progress between two keyframes. -/
def Stop.progress (first last : Stop) (time : K) : K :=
  (time - first.offset) / (last.offset - first.offset)

/-- How an easing that is written changes a progress. Without one there is no change. -/
def eased (curve : String → K → K) : Option String → K → K
  | some text => curve text
  | none => id

/-- A keyframe, and the easing of the stretch that starts there if it has one. -/
structure Frame where
  stop : Stop
  easing : Option String

/-- The poses at a time, every stretch between two keyframes eased by itself. Times outside of the
keyframes belong to the first and the last stretch. -/
def play (curve : String → K → K) : List Frame → K → Option (List (Pose K))
  | [a, b], time =>
    some (a.stop.between b.stop (eased curve a.easing (a.stop.progress b.stop time)))
  | a :: b :: c :: rest, time =>
    if time < b.stop.offset then
      some (a.stop.between b.stop (eased curve a.easing (a.stop.progress b.stop time)))
    else play curve (b :: c :: rest) time
  | _, _ => none

/-- What an export plays: its keyframes, and the easing of the whole if there is one. -/
structure Playback where
  frames : List Frame
  easing : Option String

def Playback.poses? (curve : String → K → K) (playback : Playback) (time : K) :
    Option (List (Pose K)) :=
  play curve playback.frames (eased curve playback.easing time)

/-! Exact numbers from the texts of an export. -/

/-- The digits, the point and the sign at the start of a text. -/
def numberPart (text : String) : String :=
  .ofList (text.toList.takeWhile fun c => c.isDigit || c == '.' || c == '-')

/-- Reads `40px`, `0` or a call such as `rotate(90deg)`. -/
def pose? (declaration : String × String) : Option (Pose ℚ) :=
  let (function, argument) :=
    if '(' ∈ declaration.2.toList then readCall declaration.2 else ("", declaration.2)
  (ratOfText? (numberPart argument)).map fun amount => ⟨declaration.1, function, amount⟩

namespace Css

/-- The property by which a keyframe sets the easing of the stretch that starts there. -/
def timingFunction : String := "animation-timing-function"

/-- Reads a keyframe. Without an easing of its own it has the one of the rule. -/
def Step.frame? (easing : String) (step : Step) : Option Frame := do
  let number ← between? [] ['%'] step.percentage.toList
  let percentage ← ratOfText? (.ofList number)
  let timing := step.declarations.filter fun d => d.property = timingFunction
  let moving := step.declarations.filter fun d => d.property ≠ timingFunction
  let poses ← moving.mapM fun d => pose? (d.property, d.value.render)
  let own := timing.getLast?.map fun d => d.value.render
  return ⟨⟨percentage / 100, poses⟩, some (own.getD easing)⟩

/-- The timing function of a rule belongs to the stretches of the keyframes that it runs. -/
def playback? (text : String) : Option Playback := do
  let block ← Block.read? text
  if block.rule.keyframes = block.name then
    let frames ← block.steps.mapM (Step.frame? block.rule.easing.render)
    return ⟨frames, none⟩
  else none

/-- The poses that a style sheet gives. -/
def play? (text : String) (curve : String → K → K) (time : K) : Option (List (Pose K)) :=
  (playback? text).bind fun playback => playback.poses? curve time

end Css

namespace ReactComponent

/-- Reads a keyframe. The field `easing` is the easing of the stretch that starts there. -/
def frame? (frame : String × List (String × String)) : Option Frame := do
  let offset ← ratOfText? frame.1
  let timing := frame.2.filter fun field => field.1 = "easing"
  let moving := frame.2.filter fun field => field.1 ≠ "easing"
  let poses ← moving.mapM pose?
  return ⟨⟨offset, poses⟩, timing.getLast?.map (·.2)⟩

/-- The option `easing` belongs to the whole of the animation. -/
def playback? (text : String) : Option Playback := do
  let component ← read? text
  let options ← options? text
  let frames ← component.frames.mapM frame?
  match options.lookup "easing" with
  | some expression => return ⟨frames, some (← component.textOf? expression)⟩
  | none => return ⟨frames, none⟩

/-- The poses that a component gives. -/
def play? (text : String) (curve : String → K → K) (time : K) : Option (List (Pose K)) :=
  (playback? text).bind fun playback => playback.poses? curve time

end ReactComponent

variable {config : Config} {animation : Animation} {motion : Motion} {frame : Keyframe}
  {stops : List Stop} {frames : List Frame} {poses : List (Pose ℚ)} {curve : String → K → K}
  {easing : Option String} {ease : K → K} {time : K}

/-! Both exports have the same keyframes. -/

/-- The exact offsets that are written for the steps of a bounce. -/
def exactOffsets : List ℚ := [0, 1 / 5, 2 / 5, 1 / 2, 3 / 5, 4 / 5, 1]

/-- An offset is written as an exact number, as a fraction and as a percentage. -/
def Denotes (offset : Binary64) (exact : ℚ) : Prop :=
  ratOfText? (Measure.number offset) = some exact ∧
    ratOfText? (Measure.number (offset.mul (.ofNat 100))) = some (exact * 100)

instance (offset : Binary64) (exact : ℚ) : Decidable (Denotes offset exact) :=
  inferInstanceAs (Decidable (_ ∧ _))

theorem denotes_bounceSteps :
    List.Forall₂ Denotes (bounceSteps.map (·.1)) exactOffsets := by
  have hpairs : ∀ pair ∈ (bounceSteps.map (·.1)).zip exactOffsets, Denotes pair.1 pair.2 := by
    decide +kernel
  rw [List.forall₂_iff_zip]
  constructor
  · simp only [List.length_map]
    rfl
  · intro offset number hpair
    exact hpairs (offset, number) hpair

/-- A keyframe is this stop in both exports. Neither of them eases a keyframe by itself. -/
structure Shows (frame : Keyframe) (stop : Stop) : Prop where
  css : ∀ easing, (Animation.cssStep frame).frame? easing = some ⟨stop, some easing⟩
  react : ReactComponent.frame? (Measure.number frame.offset, frame.declarations) =
    some ⟨stop, none⟩

theorem css_frame? (frame : Keyframe) {exact : ℚ} (easing : String)
    (hpercentage : ratOfText? (Measure.number (frame.offset.mul (.ofNat 100))) =
      some (exact * 100))
    (hmoving : ∀ d ∈ frame.declarations, d.1 ∈ ["opacity", "transform"])
    (hposes : frame.declarations.mapM pose? = some poses) :
    (Animation.cssStep frame).frame? easing = some ⟨⟨exact, poses⟩, some easing⟩ := by
  have hnumber : between? [] ['%'] (Measure.percent frame.offset).toList =
      some (Measure.number (frame.offset.mul (.ofNat 100))).toList := by
    rw [Measure.percent, String.toList_append]
    exact Css.between?_suffix _ _
  have hne : ∀ d ∈ (Animation.cssStep frame).declarations, d.property ≠ Css.timingFunction := by
    intro d hd
    obtain ⟨declaration, hdeclaration, rfl⟩ := List.mem_map.mp hd
    rintro (heq : declaration.1 = Css.timingFunction)
    have hmem := hmoving declaration hdeclaration
    rw [heq] at hmem
    exact absurd hmem (by decide)
  have htiming : (Animation.cssStep frame).declarations.filter
      (fun d => d.property = Css.timingFunction) = [] := by
    simpa [List.filter_eq_nil_iff] using hne
  have hall : (Animation.cssStep frame).declarations.filter
      (fun d => d.property ≠ Css.timingFunction) = (Animation.cssStep frame).declarations := by
    simpa [List.filter_eq_self] using hne
  have hdeclarations : (Animation.cssStep frame).declarations.mapM
      (fun d => pose? (d.property, d.value.render)) = some poses := by
    unfold Animation.cssStep
    rw [List.mapM_map, ← hposes]
    refine congrArg (fun read => frame.declarations.mapM read) ?_
    funext declaration
    obtain ⟨property, value⟩ := declaration
    simp only [Function.comp_apply, Css.Value.render]
  have hexact : exact * 100 / 100 = exact := by norm_num
  have hstep : (Animation.cssStep frame).percentage = Measure.percent frame.offset := rfl
  simp only [Css.Step.frame?, hstep, hnumber, String.ofList_toList, hpercentage, hexact, htiming,
    hall, hdeclarations, Option.bind_eq_bind, Option.bind_some, List.getLast?_nil, Option.map_none,
    Option.getD_none]
  rfl

theorem react_frame? (frame : Keyframe) {exact : ℚ}
    (hfraction : ratOfText? (Measure.number frame.offset) = some exact)
    (hmoving : ∀ d ∈ frame.declarations, d.1 ∈ ["opacity", "transform"])
    (hposes : frame.declarations.mapM pose? = some poses) :
    ReactComponent.frame? (Measure.number frame.offset, frame.declarations) =
      some ⟨⟨exact, poses⟩, none⟩ := by
  have hne : ∀ d ∈ frame.declarations, d.1 ≠ "easing" := by
    intro d hd heq
    have hmem := hmoving d hd
    rw [heq] at hmem
    exact absurd hmem (by decide)
  have htiming : frame.declarations.filter (fun d => d.1 = "easing") = [] := by
    simpa [List.filter_eq_nil_iff] using hne
  have hall : frame.declarations.filter (fun d => d.1 ≠ "easing") = frame.declarations := by
    simpa [List.filter_eq_self] using hne
  simp only [ReactComponent.frame?, hfraction, htiming, hall, hposes, Option.bind_eq_bind,
    Option.bind_some, List.getLast?_nil, Option.map_none]
  rfl

theorem shows_frame (frame : Keyframe) {exact : ℚ} (hoffset : Denotes frame.offset exact)
    (hmoving : ∀ d ∈ frame.declarations, d.1 ∈ ["opacity", "transform"])
    (hposes : frame.declarations.mapM pose? = some poses) : Shows frame ⟨exact, poses⟩ :=
  ⟨fun easing => css_frame? frame easing hoffset.2 hmoving hposes,
    react_frame? frame hoffset.1 hmoving hposes⟩

theorem mapM_of_forall₂ {α β : Type} {read : α → Option β} {items : List α} {results : List β}
    (h : List.Forall₂ (fun item result => read item = some result) items results) :
    items.mapM read = some results := by
  induction h with
  | nil => rfl
  | cons hitem _ ih => simp [hitem, ih]

theorem css_playback? (h : List.Forall₂ Shows animation.keyframes stops) :
    Css.playback? animation.cssText =
      some ⟨stops.map (Frame.mk · (some animation.timing.easing.text)), none⟩ := by
  have hframes : (animation.keyframes.map Animation.cssStep).mapM
      (Css.Step.frame? animation.timing.easing.text) =
        some (stops.map (Frame.mk · (some animation.timing.easing.text))) := by
    rw [List.mapM_map]
    apply mapM_of_forall₂
    rw [List.forall₂_map_right_iff]
    exact h.imp fun _ _ hshows => hshows.css _
  unfold Css.playback?
  rw [Animation.cssText, Css.read?_render (plain_cssBlock animation)]
  simp only [Animation.cssBlock, Css.Value.render, hframes, Option.bind_eq_bind, Option.bind_some,
    if_true]
  rfl

/-- The options of a component name the parameter with the text of the easing. -/
theorem textOf?_easing (name : String) (animation : Animation) :
    (ReactComponent.ofAnimation name animation).textOf? "animation.easing" =
      some animation.timing.easing.text := by
  have hquoted : between? ['"'] ['"'] "animation.easing".toList = none := by decide
  have hname : between? "animation.".toList [] "animation.easing".toList =
      some "easing".toList := by
    decide
  simp only [ReactComponent.textOf?, hquoted, hname, Option.bind_eq_bind, Option.bind_some,
    String.ofList_toList]
  rfl

theorem react_playback? (wanted : Option String)
    (h : List.Forall₂ Shows animation.keyframes stops) :
    ReactComponent.playback? (animation.reactSource wanted).text =
      some ⟨stops.map (Frame.mk · none), some animation.timing.easing.text⟩ := by
  have hplain := plain_ofAnimation (avoids_componentName wanted animation) animation
  have hframes : (animation.keyframes.map fun frame =>
      (Measure.number frame.offset, frame.declarations)).mapM ReactComponent.frame? =
        some (stops.map (Frame.mk · none)) := by
    rw [List.mapM_map]
    apply mapM_of_forall₂
    rw [List.forall₂_map_right_iff]
    exact h.imp fun _ _ hshows => hshows.react
  have hlookup : [("duration", "animation.duration * 1000"), ("delay", "animation.delay * 1000"),
      ("easing", "animation.easing"), ("fill", "\"both\"")].lookup "easing" =
        some "animation.easing" := by decide
  unfold ReactComponent.playback?
  rw [Animation.reactSource, ReactComponent.read?_render hplain,
    ReactComponent.options?_render hplain]
  simp only [Option.bind_eq_bind, Option.bind_some, hlookup, textOf?_easing]
  simp only [ReactComponent.ofAnimation, hframes, Option.bind_some]
  rfl

theorem css_play? (h : List.Forall₂ Shows animation.keyframes stops) :
    Css.play? animation.cssText curve time =
      play curve (stops.map (Frame.mk · (some animation.timing.easing.text))) time := by
  rw [Css.play?, css_playback? h]
  rfl

theorem react_play? (wanted : Option String) (h : List.Forall₂ Shows animation.keyframes stops) :
    ReactComponent.play? (animation.reactSource wanted).text curve time =
      play curve (stops.map (Frame.mk · none)) (curve animation.timing.easing.text time) := by
  rw [ReactComponent.play?, react_playback? wanted h]
  rfl

/-! The keyframes of a motion. -/

theorem numberPart_number {unit : String}
    (h : (unit.toList.takeWhile fun c => c.isDigit || c == '.' || c == '-') = [])
    (value : Binary64) : numberPart (Measure.number value ++ unit) = Measure.number value := by
  have hnumber : ∀ c ∈ (Measure.number value).toList,
      (c.isDigit || c == '.' || c == '-') = true := by
    intro c hc
    rcases Measure.mem_number hc with hc | rfl | rfl
    · simp [hc]
    · rfl
    · rfl
  rw [numberPart, String.toList_append, List.takeWhile_append_of_pos hnumber, h, List.append_nil,
    String.ofList_toList]

theorem numberPart_number_self (value : Binary64) :
    numberPart (Measure.number value) = Measure.number value := by
  have happend := numberPart_number (by decide : ("".toList.takeWhile _) = []) value
  rwa [String.append_empty] at happend

theorem numberPart_length (value : Binary64) :
    numberPart (Measure.length value) = Measure.number value := by
  unfold Measure.length
  split
  · rename_i hzero
    rw [hzero]
    decide
  · exact numberPart_number (by decide) value

theorem pose?_number (property : String) (value : Binary64) :
    pose? (property, Measure.number value) =
      some ⟨property, "", (Measure.decimal value).toRat⟩ := by
  have hparenthesis : '(' ∉ (Measure.number value).toList :=
    (Measure.avoids_number (by decide) value).not_mem (List.mem_singleton.mpr rfl)
  simp only [pose?, if_neg hparenthesis, numberPart_number_self, Measure.ratOfText?_number,
    Option.map_some]

theorem pose?_call {function opening argument : String} {amount : ℚ}
    (hopening : opening = function ++ "(") (hfunction : '(' ∉ function.toList)
    (hargument : ratOfText? (numberPart argument) = some amount) (property : String) :
    pose? (property, opening ++ argument ++ ")") = some ⟨property, function, amount⟩ := by
  have hparenthesis : '(' ∈ (function ++ "(" ++ argument ++ ")").toList := by simp
  subst hopening
  simp only [pose?, if_pos hparenthesis, readCall_call hfunction, hargument, Option.map_some]

theorem pose?_translate (axis : Axis) (value : Binary64) :
    pose? ("transform", Motion.translate axis value) =
      some ⟨"transform", Motion.translateFunction axis, (Measure.decimal value).toRat⟩ := by
  apply pose?_call rfl
  · cases axis <;> decide
  · rw [numberPart_length, Measure.ratOfText?_number]

theorem shows_single {offset : Binary64} {exact : ℚ} {property value : String}
    {pose : Pose ℚ} (hoffset : Denotes offset exact) (hpose : pose? (property, value) = some pose)
    (hproperty : property ∈ ["opacity", "transform"]) :
    Shows ⟨offset, [(property, value)]⟩ ⟨exact, [pose]⟩ := by
  have hposes : [(property, value)].mapM pose? = some [pose] := by simp [hpose]
  refine shows_frame ⟨offset, [(property, value)]⟩ hoffset (fun d hd => ?_) hposes
  rwa [List.mem_singleton.mp hd]

/-- Every motion but a bounce goes from its start to its end at one stretch. -/
theorem shows_ends (h : ∀ height, motion ≠ .bounce height) :
    ∃ first last, List.Forall₂ Shows motion.keyframes [⟨0, first⟩, ⟨1, last⟩] := by
  obtain ⟨hzero, -⟩ := List.forall₂_cons.mp denotes_bounceSteps
  have hone : Denotes (.ofNat 1) 1 := by decide +kernel
  have hopacity : "opacity" ∈ ["opacity", "transform"] := by simp
  have htransform : "transform" ∈ ["opacity", "transform"] := by simp
  cases motion with
  | fade opacity =>
    exact ⟨_, _, .cons (shows_single hzero (pose?_number _ _) hopacity)
      (.cons (shows_single hone (pose?_number _ _) hopacity) .nil)⟩
  | slide axis distance direction =>
    exact ⟨_, _, .cons (shows_single hzero (pose?_translate _ _) htransform)
      (.cons (shows_single hone (pose?_translate _ _) htransform) .nil)⟩
  | scale start =>
    have hstart : ratOfText? (numberPart (Measure.number start)) =
        some (Measure.decimal start).toRat := by
      rw [numberPart_number_self, Measure.ratOfText?_number]
    have hfirst := pose?_call (by decide : "scale(" = "scale" ++ "(") (by decide) hstart
    have hlast : pose? ("transform", "scale(1)") = some ⟨"transform", "scale", 1⟩ := by
      decide +kernel
    exact ⟨_, _, .cons (shows_single hzero (hfirst "transform") htransform)
      (.cons (shows_single hone hlast htransform) .nil)⟩
  | rotate degrees =>
    have hangle (value : Binary64) :
        pose? ("transform", "rotate(" ++ Measure.degrees value ++ ")") =
          some ⟨"transform", "rotate", (Measure.decimal value).toRat⟩ := by
      apply pose?_call (by decide : "rotate(" = "rotate" ++ "(") (by decide)
      rw [Measure.degrees, numberPart_number (by decide), Measure.ratOfText?_number]
    exact ⟨_, _, .cons (shows_single hzero (hangle _) htransform)
      (.cons (shows_single hone (hangle _) htransform) .nil)⟩
  | bounce height => exact (h height rfl).elim

/-- The keyframes of a bounce with its two hops. -/
def bounceStops (peak hop : ℚ) : List Stop :=
  List.zipWith (fun offset lift => ⟨offset, [⟨"transform", "translateY", lift⟩]⟩) exactOffsets
    [0, 0, peak, 0, hop, 0, 0]

/-- The lift at the peak as it is written, and the one of the second hop. -/
def writtenPeak (height : Binary64) : ℚ := -(Measure.decimal height).toRat

def writtenHop (height : Binary64) : ℚ :=
  (Measure.decimal (height.neg.mul (.ofQuotient 1 2))).toRat

theorem shows_bounce {height : Binary64} (h : height.isFinite = true) :
    List.Forall₂ Shows (Motion.bounce height).keyframes
      (bounceStops (writtenPeak height) (writtenHop height)) := by
  have hfinite : height.neg.isFinite = true := by rwa [Binary64.isFinite_neg]
  have hground : pose? ("transform", Motion.translate .y (height.neg.mul .zero)) =
      some ⟨"transform", "translateY", 0⟩ := by
    obtain ⟨negative, hzero⟩ := Binary64.mul_zero hfinite
    rw [pose?_translate, hzero, Measure.toRat_of_number_zero (Measure.number_zero negative)]
    rfl
  have hpeak : pose? ("transform", Motion.translate .y (height.neg.mul (.ofNat 1))) =
      some ⟨"transform", "translateY", writtenPeak height⟩ := by
    rw [pose?_translate, Binary64.mul_one hfinite, Measure.toRat_decimal_neg]
    rfl
  have hhop := pose?_translate .y (height.neg.mul (.ofQuotient 1 2))
  have hoffsets := denotes_bounceSteps
  simp only [bounceSteps, exactOffsets, List.map_cons, List.map_nil, List.forall₂_cons,
    List.forall₂_nil_left_iff] at hoffsets
  obtain ⟨h₀, h₁, h₂, h₃, h₄, h₅, h₆, -⟩ := hoffsets
  have htransform : "transform" ∈ ["opacity", "transform"] := by simp
  exact .cons (shows_single h₀ hground htransform) (.cons (shows_single h₁ hground htransform)
    (.cons (shows_single h₂ hpeak htransform) (.cons (shows_single h₃ hground htransform)
      (.cons (shows_single h₄ hhop htransform) (.cons (shows_single h₅ hground htransform)
        (.cons (shows_single h₆ hground htransform) .nil))))))

/-! The two ways to ease. -/

/-- Between two keyframes, the easing of the stretch is the easing of the whole. -/
theorem play_ends (first last : List (Pose ℚ)) :
    play curve ([⟨0, first⟩, ⟨1, last⟩].map (Frame.mk · easing)) time =
      play curve ([⟨0, first⟩, ⟨1, last⟩].map (Frame.mk · none)) (eased curve easing time) := by
  simp [play, Stop.progress, eased]

section order

variable [IsStrictOrderedRing K]

theorem progress_mem {a b : Stop} (hab : a.offset < b.offset) (ha : (a.offset : K) ≤ time)
    (hb : time ≤ b.offset) : 0 ≤ a.progress b time ∧ a.progress b time ≤ 1 := by
  have hlength : (0 : K) < b.offset - a.offset := by
    have hcast : (a.offset : K) < b.offset := Rat.cast_lt.mpr hab
    linarith
  constructor
  · exact div_nonneg (by linarith) (by linarith)
  · rw [Stop.progress, div_le_one hlength]
    linarith

/-- Easings that change nothing can be left out. -/
theorem play_of_plain
    (hease : ∀ frame ∈ frames, ∀ t, 0 ≤ t → t ≤ 1 → eased curve frame.easing t = t)
    (horder : frames.Pairwise fun a b => a.stop.offset < b.stop.offset)
    (hfirst : ∀ frame ∈ frames.head?, (frame.stop.offset : K) ≤ time)
    (hlast : ∀ frame ∈ frames.getLast?, time ≤ (frame.stop.offset : K)) :
    play curve frames time =
      play curve (frames.map fun frame => ⟨frame.stop, none⟩) time := by
  fun_induction play curve frames time with
  | case1 a b time =>
    have hab : a.stop.offset < b.stop.offset := (List.pairwise_cons.mp horder).1 b (by simp)
    obtain ⟨h0, h1⟩ := progress_mem hab (hfirst a rfl) (hlast b rfl)
    rw [hease a (by simp) _ h0 h1]
    rfl
  | case2 a b c rest time hb =>
    have hab : a.stop.offset < b.stop.offset := (List.pairwise_cons.mp horder).1 b (by simp)
    obtain ⟨h0, h1⟩ := progress_mem hab (hfirst a rfl) hb.le
    rw [hease a (by simp) _ h0 h1, List.map_cons, List.map_cons, List.map_cons, play, if_pos hb]
    rfl
  | case3 a b c rest time hb ih =>
    have hrest := ih (fun frame hframe => hease frame (List.mem_cons_of_mem _ hframe))
      (List.pairwise_cons.mp horder).2
      (fun frame hframe => by
        obtain rfl := Option.mem_some.mp hframe
        exact not_lt.mp hb)
      (fun frame hframe => hlast frame (by simpa using hframe))
    rw [hrest, List.map_cons, List.map_cons, List.map_cons, List.map_cons, List.map_cons, play,
      if_neg hb]
  | case4 frames time hpair hmore =>
    rcases frames with _ | ⟨a, _ | ⟨b, _ | ⟨c, rest⟩⟩⟩
    · rfl
    · rfl
    · exact (hpair a b rfl).elim
    · exact (hmore a b c rest rfl).elim

end order

/-! A bounce. -/

theorem pairwise_bounceFrames (peak hop : ℚ) (easing : Option String) :
    ((bounceStops peak hop).map (Frame.mk · easing)).Pairwise fun a b =>
      a.stop.offset < b.stop.offset := by
  have hoffsets : exactOffsets.Pairwise (· < ·) := by
    unfold exactOffsets
    decide +kernel
  have hmap : ((bounceStops peak hop).map (Frame.mk · easing)).map (·.stop.offset) =
      exactOffsets := rfl
  rw [← hmap] at hoffsets
  exact List.pairwise_map.mp hoffsets

/-- The lift of a bounce at a time: up and down twice, and on the ground before and after. -/
def bounceLift (peak hop : ℚ) (ease : K → K) (time : K) : K :=
  if time < 1 / 5 then 0
  else if time < 2 / 5 then peak * ease ((time - 1 / 5) / (1 / 5))
  else if time < 1 / 2 then peak - peak * ease ((time - 2 / 5) / (1 / 10))
  else if time < 3 / 5 then hop * ease ((time - 1 / 2) / (1 / 10))
  else if time < 4 / 5 then hop - hop * ease ((time - 3 / 5) / (1 / 5))
  else 0

theorem play_bounce [IsStrictOrderedRing K] (peak hop : ℚ) (curve : String → K → K)
    (easing : Option String) (time : K) :
    play curve ((bounceStops peak hop).map (Frame.mk · easing)) time =
      some [⟨"transform", "translateY", bounceLift peak hop (eased curve easing) time⟩] := by
  have hrise : (2 / 5 - 1 / 5 : K) = 1 / 5 := by norm_num
  have hfall : (1 / 2 - 2 / 5 : K) = 1 / 10 := by norm_num
  have hrise' : (3 / 5 - 1 / 2 : K) = 1 / 10 := by norm_num
  have hfall' : (4 / 5 - 3 / 5 : K) = 1 / 5 := by norm_num
  unfold bounceLift bounceStops exactOffsets
  simp only [List.zipWith_cons_cons, List.zipWith_nil_left, List.map_cons, List.map_nil, play,
    Stop.between, Pose.between, Stop.progress]
  push_cast
  simp only [hrise, hfall, hrise', hfall', sub_zero, zero_mul, add_zero, zero_add, sub_self,
    zero_sub, neg_mul, ← sub_eq_add_neg]
  split_ifs <;> rfl

/-- At the peak of the first hop the eased stretches are up, and the eased whole is somewhere else
unless the easing passes through this very moment. -/
theorem bounceLift_ne_at_peak [IsStrictOrderedRing K] {peak : ℚ} (hop : ℚ) (hpeak : peak ≠ 0)
    (hstart : ease 0 = 0) (hmoved : ease (2 / 5) ≠ 2 / 5)
    (hrange : ease (2 / 5) < 1 / 2 ∨ 4 / 5 ≤ ease (2 / 5)) :
    bounceLift peak hop ease (2 / 5) ≠ bounceLift peak hop id (ease (2 / 5)) := by
  have hcast : (peak : K) ≠ 0 := Rat.cast_ne_zero.mpr hpeak
  have hup : bounceLift peak hop ease (2 / 5) = peak := by
    have h₁ : ¬ (2 / 5 : K) < 1 / 5 := by norm_num
    have h₂ : ¬ (2 / 5 : K) < 2 / 5 := lt_irrefl _
    have h₃ : (2 / 5 : K) < 1 / 2 := by norm_num
    rw [bounceLift, if_neg h₁, if_neg h₂, if_pos h₃, sub_self, zero_div, hstart, mul_zero, sub_zero]
  rw [hup]
  generalize ease (2 / 5) = moment at hmoved hrange
  intro hlift
  unfold bounceLift at hlift
  split_ifs at hlift with h₁ h₂ h₃ h₄ h₅
  · exact hcast hlift
  · have hone : (moment - 1 / 5) / (1 / 5) = (1 : K) := by
      apply mul_left_cancel₀ hcast
      rw [mul_one]
      exact hlift.symm
    rw [div_eq_one_iff_eq (by norm_num)] at hone
    linarith
  · have hzero : (moment - 2 / 5) / (1 / 10) = (0 : K) := by
      apply mul_left_cancel₀ hcast
      rw [mul_zero]
      exact sub_eq_self.mp hlift.symm
    rw [div_eq_zero_iff] at hzero
    rcases hzero with hzero | hzero
    · exact hmoved (sub_eq_zero.mp hzero)
    · norm_num at hzero
  · rcases hrange with hrange | hrange
    · exact h₃ hrange
    · linarith
  · rcases hrange with hrange | hrange
    · exact h₃ hrange
    · linarith
  · exact hcast hlift

/-! The exports of a config. -/

/-- A bounce of no height in what is written. -/
def Animation.Still (animation : Animation) : Prop :=
  ∀ frame ∈ animation.keyframes, frame.declarations = [("transform", "translateY(0)")]

theorem shows_still {height : Binary64} (h : height.isFinite = true)
    (hstill : ∀ frame ∈ (Motion.bounce height).keyframes,
      frame.declarations = [("transform", "translateY(0)")]) :
    List.Forall₂ Shows (Motion.bounce height).keyframes (bounceStops 0 0) := by
  have hzero : ∀ lift ∈ bounceSteps.map (·.2),
      (Measure.decimal (height.neg.mul lift)).toRat = 0 := by
    intro lift hlift
    obtain ⟨entry, hentry, rfl⟩ := List.mem_map.mp hlift
    have htext := hstill _ (List.mem_map_of_mem hentry)
    have hpose : pose? ("transform", "translateY(0)") = some ⟨"transform", "translateY", 0⟩ := by
      decide +kernel
    simp only [Motion.transform, List.cons.injEq, Prod.mk.injEq, true_and, and_true] at htext
    rw [← htext, pose?_translate, Option.some.injEq, Pose.mk.injEq] at hpose
    exact hpose.2.2
  have hpeak : writtenPeak height = 0 := by
    have hone := hzero (.ofNat 1) (by simp [bounceSteps])
    rwa [Binary64.mul_one (by rwa [Binary64.isFinite_neg]), Measure.toRat_decimal_neg] at hone
  have hhop : writtenHop height = 0 := hzero (.ofQuotient 1 2) (by simp [bounceSteps])
  have hshows := shows_bounce h
  rwa [hpeak, hhop] at hshows

/-- The keyframes of an animation, and that it does not matter where their easing is placed. -/
theorem exists_stops [IsStrictOrderedRing K] (easing : Option String)
    (h : Animation.ofConfig config = .ok animation)
    (hease : animation.family = .bounce →
      (∀ t, 0 ≤ t → t ≤ 1 → eased curve easing t = t) ∨ animation.Still)
    (h0 : 0 ≤ time) (h1 : time ≤ 1) :
    ∃ stops poses, List.Forall₂ Shows animation.keyframes stops ∧
      play curve (stops.map (Frame.mk · easing)) time = some poses ∧
      play curve (stops.map (Frame.mk · none)) (eased curve easing time) = some poses := by
  obtain ⟨family, -, hvalid, rfl⟩ := Animation.ofConfig_ok h
  by_cases hfamily : family = .bounce
  · subst hfamily
    have hfinite := Preview.isFinite_distance hvalid
    rcases hease rfl with hplain | hstill
    · refine ⟨_, _, shows_bounce hfinite, play_bounce _ _ curve easing time, ?_⟩
      rw [hplain time h0 h1, ← play_bounce]
      refine (play_of_plain (fun frame hframe => ?_) (pairwise_bounceFrames _ _ easing) ?_ ?_).symm
      · obtain ⟨stop, -, rfl⟩ := List.mem_map.mp hframe
        exact hplain
      · intro frame hframe
        obtain rfl := Option.mem_some.mp hframe
        simpa using h0
      · intro frame hframe
        obtain rfl := Option.mem_some.mp hframe
        simpa using h1
    · have hground (e : K → K) (t : K) : bounceLift 0 0 e t = 0 := by simp [bounceLift]
      refine ⟨_, _, shows_still hfinite hstill, play_bounce 0 0 curve easing time, ?_⟩
      rw [play_bounce, hground, hground]
  · have hends : ∀ height, Motion.ofConfig config family ≠ .bounce height := by
      cases family <;> simp [Motion.ofConfig] at hfamily ⊢
    obtain ⟨first, last, hshows⟩ := shows_ends hends
    exact ⟨_, _, hshows, rfl, (play_ends first last).symm.trans rfl⟩

/-- A style sheet and a component show the same at every moment, unless a bounce is eased. -/
theorem same_motion [IsStrictOrderedRing K] (h : Animation.ofConfig config = .ok animation)
    (hease : animation.family = .bounce →
      (∀ t, 0 ≤ t → t ≤ 1 → curve animation.timing.easing.text t = t) ∨ animation.Still)
    (h0 : 0 ≤ time) (h1 : time ≤ 1) (settings : Settings) :
    ∃ css react poses, config.source .css settings = .ok css ∧
      config.source .react settings = .ok react ∧
      Css.play? css.text curve time = some poses ∧
      ReactComponent.play? react.text curve time = some poses := by
  obtain ⟨stops, poses, hshows, hcss, hreact⟩ :=
    exists_stops (some animation.timing.easing.text) h hease h0 h1
  obtain ⟨hsource, hsource'⟩ := sources_of_ok h settings
  refine ⟨_, _, poses, hsource, hsource', ?_, ?_⟩
  · rw [css_play? hshows, hcss]
  · rw [react_play? settings.componentName hshows, ← hreact]
    rfl

def linearBounce : Config :=
  { kind := .family .bounce, duration := .ofNat 1, easing := .named .linear,
    distance := some (.ofNat 40) }

theorem ofConfig_linearBounce : Animation.ofConfig linearBounce =
    .ok ⟨.bounce, ⟨.ofNat 1, .zero, .named .linear⟩, .bounce (.ofNat 40)⟩ := by
  decide +kernel

/-- The curve `step-end`: nothing happens before the end. -/
def stepEnd (progress : ℚ) : ℚ := if progress < 1 then 0 else 1

/-- Two of the curves that have names. -/
def namedCurve (text : String) : ℚ → ℚ := if text = "step-end" then stepEnd else id

theorem same_motion_linearBounce :
    ∃ css react poses, linearBounce.source .css {} = .ok css ∧
      linearBounce.source .react {} = .ok react ∧
      Css.play? css.text namedCurve (9 / 20) = some poses ∧
      ReactComponent.play? react.text namedCurve (9 / 20) = some poses := by
  have hlinear : namedCurve (Easing.named .linear).text = id := if_neg (by decide)
  refine same_motion ofConfig_linearBounce (fun _ => Or.inl fun t _ _ => ?_) (by norm_num)
    (by norm_num) {}
  rw [hlinear]
  rfl

section bounce

variable [IsStrictOrderedRing K] {height : Binary64}

theorem css_play?_bounce (hbounce : animation.motion = .bounce height)
    (hfinite : height.isFinite = true) :
    Css.play? animation.cssText curve time = some [⟨"transform", "translateY",
      bounceLift (writtenPeak height) (writtenHop height) (curve animation.timing.easing.text)
        time⟩] := by
  have hshows := shows_bounce hfinite
  rw [← hbounce] at hshows
  rw [css_play? hshows, play_bounce]
  rfl

theorem react_play?_bounce (wanted : Option String) (hbounce : animation.motion = .bounce height)
    (hfinite : height.isFinite = true) :
    ReactComponent.play? (animation.reactSource wanted).text curve time =
      some [⟨"transform", "translateY", bounceLift (writtenPeak height) (writtenHop height) id
        (curve animation.timing.easing.text time)⟩] := by
  have hshows := shows_bounce hfinite
  rw [← hbounce] at hshows
  rw [react_play? wanted hshows, play_bounce]
  rfl

/-- A bounce with a height that is eased moves differently in its two exports. -/
theorem motions_differ (h : Animation.ofConfig config = .ok animation)
    (hbounce : animation.motion = .bounce height) (hfinite : height.isFinite = true)
    (hpeak : writtenPeak height ≠ 0) (hcurve : curve animation.timing.easing.text = ease)
    (hstart : ease 0 = 0) (hmoved : ease (2 / 5) ≠ 2 / 5)
    (hrange : ease (2 / 5) < 1 / 2 ∨ 4 / 5 ≤ ease (2 / 5)) (settings : Settings) :
    ∃ css react, config.source .css settings = .ok css ∧
      config.source .react settings = .ok react ∧
      Css.play? css.text curve (2 / 5) ≠ ReactComponent.play? react.text curve (2 / 5) := by
  obtain ⟨hsource, hsource'⟩ := sources_of_ok h settings
  have hne := bounceLift_ne_at_peak (writtenHop height) hpeak hstart hmoved hrange
  refine ⟨_, _, hsource, hsource', fun hsame => hne ?_⟩
  rw [css_play?_bounce hbounce hfinite,
    react_play?_bounce settings.componentName hbounce hfinite, hcurve] at hsame
  simpa using hsame

end bounce

def steppedBounce : Config := { linearBounce with easing := .named .stepEnd }

/-- The style sheet lifts the element at its keyframes, and the component leaves it on the
ground. -/
theorem motions_differ_steppedBounce :
    stepEnd 0 = 0 ∧ stepEnd 1 = 1 ∧
    ∃ css react, steppedBounce.source .css {} = .ok css ∧
      steppedBounce.source .react {} = .ok react ∧
      Css.play? css.text namedCurve (9 / 20) = some [⟨"transform", "translateY", -40⟩] ∧
      ReactComponent.play? react.text namedCurve (9 / 20) =
        some [⟨"transform", "translateY", 0⟩] := by
  have hvalid : Animation.ofConfig steppedBounce =
      .ok ⟨.bounce, ⟨.ofNat 1, .zero, .named .stepEnd⟩, .bounce (.ofNat 40)⟩ := by
    decide +kernel
  have hfinite : (Binary64.ofNat 40).isFinite = true := by decide +kernel
  have hpeak : writtenPeak (.ofNat 40) = -40 := by decide +kernel
  have hcurve : namedCurve (Easing.named .stepEnd).text = stepEnd := if_pos rfl
  obtain ⟨hsource, hsource'⟩ := sources_of_ok hvalid {}
  refine ⟨by decide +kernel, by decide +kernel, _, _, hsource, hsource',
    (css_play?_bounce rfl hfinite).trans ?_, (react_play?_bounce none rfl hfinite).trans ?_⟩
  · norm_num [bounceLift, hcurve, stepEnd, hpeak]
  · norm_num [bounceLift, hcurve, stepEnd]

end AnimationKit
