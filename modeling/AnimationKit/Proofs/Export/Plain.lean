import AnimationKit.Export.Source
import AnimationKit.Proofs.Css.Reading
import AnimationKit.Proofs.Export.Component
import AnimationKit.Proofs.Measure

/-! No part of an export holds the marks around it, so both exports can be read. -/
namespace AnimationKit

open Text

/-! Values and curves. -/

theorem avoids_length {marks : List Char} (h : Measure.Separating marks)
    (hunit : Avoids marks "px".toList) (value : Binary64) :
    Avoids marks (Measure.length value).toList := by
  unfold Measure.length
  split
  · rename_i hzero
    rw [← hzero]
    exact Measure.avoids_number h value
  · rw [Measure.pixels, String.toList_append]
    exact (Measure.avoids_number h value).append hunit

theorem property_mem {motion : Motion} {frame : Keyframe} (h : frame ∈ motion.keyframes) :
    ∀ d ∈ frame.declarations, d.1 ∈ ["opacity", "transform"] := by
  intro d hd
  cases motion with
  | bounce height =>
    obtain ⟨entry, -, rfl⟩ := List.mem_map.mp h
    rw [List.mem_singleton.mp hd]
    simp
  | _ =>
    simp only [Motion.keyframes, List.mem_cons, List.not_mem_nil, or_false] at h
    rcases h with rfl | rfl <;> rw [List.mem_singleton.mp hd] <;> simp

/-- What stands around the numbers in a value. -/
def valueWords : List String :=
  ["translateX(", "translateY(", "scale(", "scale(1)", "rotate(", "px", "deg", ")"]

theorem avoids_value {marks : List Char} (hmarks : Measure.Separating marks)
    (hwords : ∀ word ∈ valueWords, Avoids marks word.toList) {motion : Motion} {frame : Keyframe}
    (h : frame ∈ motion.keyframes) : ∀ d ∈ frame.declarations, Avoids marks d.2.toList := by
  simp only [valueWords, List.forall_mem_cons] at hwords
  obtain ⟨hx, hy, hscale, hwhole, hrotate, hpixels, hdegrees, hclosing, -⟩ := hwords
  have hnumber : ∀ value, Avoids marks (Measure.number value).toList :=
    Measure.avoids_number hmarks
  have htranslate (axis : Axis) (offset : Binary64) :
      Avoids marks (Motion.translate axis offset).toList := by
    have hfunction : Avoids marks (Motion.translateFunction axis ++ "(").toList := by
      cases axis with
      | x => exact hx
      | y => exact hy
    rw [Motion.translate, String.toList_append, String.toList_append]
    exact (hfunction.append (avoids_length hmarks hpixels offset)).append hclosing
  have hturn (angle : Binary64) :
      Avoids marks ("rotate(" ++ Measure.degrees angle ++ ")").toList := by
    rw [Measure.degrees, String.toList_append, String.toList_append, String.toList_append]
    exact (hrotate.append ((hnumber angle).append hdegrees)).append hclosing
  intro d hd
  cases motion with
  | bounce height =>
    obtain ⟨entry, -, rfl⟩ := List.mem_map.mp h
    rw [List.mem_singleton.mp hd]
    exact htranslate _ _
  | fade opacity =>
    simp only [Motion.keyframes, List.mem_cons, List.not_mem_nil, or_false] at h
    rcases h with rfl | rfl <;> rw [List.mem_singleton.mp hd]
    · exact hnumber _
    · exact hnumber _
  | slide axis distance direction =>
    simp only [Motion.keyframes, List.mem_cons, List.not_mem_nil, or_false] at h
    rcases h with rfl | rfl <;> rw [List.mem_singleton.mp hd]
    · exact htranslate _ _
    · exact htranslate _ _
  | scale start =>
    simp only [Motion.keyframes, List.mem_cons, List.not_mem_nil, or_false] at h
    rcases h with rfl | rfl <;> rw [List.mem_singleton.mp hd]
    · rw [String.toList_append, String.toList_append]
      exact (hscale.append (hnumber start)).append hclosing
    · exact hwhole
  | rotate degrees =>
    simp only [Motion.keyframes, List.mem_cons, List.not_mem_nil, or_false] at h
    rcases h with rfl | rfl <;> rw [List.mem_singleton.mp hd]
    · exact hturn _
    · exact hturn _

/-- The properties and the values of a motion. -/
theorem avoids_declaration {motion : Motion} {frame : Keyframe} (h : frame ∈ motion.keyframes) :
    ∀ d ∈ frame.declarations,
      Avoids [':', ',', '\n'] d.1.toList ∧ Avoids ['"', ',', '\n'] d.2.toList := by
  have hproperty : ∀ property ∈ ["opacity", "transform"],
      Avoids [':', ',', '\n'] property.toList := by decide
  exact fun d hd => ⟨hproperty _ (property_mem h d hd), avoids_value (by decide) (by decide) h d hd⟩

theorem avoids_seconds {marks : List Char} (h : Measure.Separating marks)
    (hunit : Avoids marks "s".toList) (value : Binary64) :
    Avoids marks (Measure.seconds value).toList := by
  rw [Measure.seconds, String.toList_append]
  exact (Measure.avoids_number h value).append hunit

/-- What stands around the numbers of a curve, and the names of curves. -/
def easingWords : List String :=
  [Easing.bezierOpening, ", ", ")"] ++ NamedCurve.all.map NamedCurve.name

theorem avoids_easing {marks : List Char} (hmarks : Measure.Separating marks)
    (hwords : ∀ word ∈ easingWords, Avoids marks word.toList) (easing : Easing) :
    Avoids marks easing.text.toList := by
  rw [easingWords, List.forall_mem_append] at hwords
  obtain ⟨hwords, hnames⟩ := hwords
  cases easing with
  | named curve =>
    refine hnames _ (List.mem_map_of_mem ?_)
    cases curve <;> decide
  | cubicBezier x₁ y₁ x₂ y₂ =>
    simp only [List.forall_mem_cons] at hwords
    simp only [Easing.text, String.toList_append, avoids_append, Measure.avoids_number hmarks,
      hwords, and_self]

/-! Style sheets. -/

theorem plain_cssStep {motion : Motion} {frame : Keyframe} (h : frame ∈ motion.keyframes) :
    (Animation.cssStep frame).Plain := by
  constructor
  · have hunit : Avoids [' ', '\n'] "%".toList := by decide
    rw [Animation.cssStep, Measure.percent, String.toList_append]
    exact (Measure.avoids_number (by decide) _).append hunit
  · intro declaration hdeclaration
    obtain ⟨d, hd, rfl⟩ := List.mem_map.mp hdeclaration
    obtain ⟨hproperty, hvalue⟩ := avoids_declaration h d hd
    exact ⟨hproperty.mono (by simp), d.2, rfl, hvalue.mono (by simp)⟩

theorem plain_cssBlock (animation : Animation) : animation.cssBlock.Plain := by
  have hname : Avoids [' ', '\n'] animation.family.name.toList := by
    cases animation.family <;> decide
  refine ⟨hname.mono (by simp), ?_, ?_⟩
  · intro step hs
    obtain ⟨frame, hf, rfl⟩ := List.mem_map.mp hs
    exact plain_cssStep hf
  · exact ⟨hname.mono (by simp), hname, ⟨_, rfl, avoids_seconds (by decide) (by decide) _⟩,
      ⟨_, rfl, avoids_easing (by decide) (by decide) _⟩,
      ⟨_, rfl, avoids_seconds (by decide) (by decide) _⟩⟩

/-! Components. -/

theorem plain_parameters {motion : Motion} : ∀ parameter ∈ motion.parameters, parameter.Plain := by
  have hnumber : ∀ value, Avoids ['"', '\x7b', '\n'] (Measure.number value).toList :=
    Measure.avoids_number (by decide)
  have hstart : ∀ value, Avoids [',', '\n'] (Measure.number value).toList :=
    Measure.avoids_number (by decide)
  have hstop : ∀ value, Avoids ['\n'] (Measure.number value).toList :=
    Measure.avoids_number (by decide)
  intro parameter hp
  cases motion with
  | fade opacity =>
    rw [List.mem_singleton.mp hp]
    exact ⟨by decide, hstart _, hstop _⟩
  | slide axis distance direction =>
    simp only [Motion.parameters, List.mem_cons, List.not_mem_nil, or_false] at hp
    rcases hp with rfl | rfl
    · exact ⟨by decide, by cases axis <;> decide⟩
    · exact ⟨by decide, hnumber _⟩
  | scale start =>
    rw [List.mem_singleton.mp hp]
    exact ⟨by decide, hnumber _⟩
  | rotate degrees =>
    rw [List.mem_singleton.mp hp]
    exact ⟨by decide, hstart _, hstop _⟩
  | bounce height =>
    rw [List.mem_singleton.mp hp]
    exact ⟨by decide, hnumber _⟩

theorem avoids_of_isName {name : String} (h : ReactComponent.isName name = true) :
    Avoids ['\n'] name.toList := by
  unfold ReactComponent.isName at h
  split at h
  · simp at h
  · rename_i first rest hname
    rw [Bool.and_eq_true, List.all_eq_true] at h
    rw [hname]
    intro c hc hm
    obtain rfl := List.mem_singleton.mp hm
    rcases List.mem_cons.mp hc with rfl | hc
    · exact absurd h.1 (by decide)
    · exact absurd (h.2 _ hc) (by decide)

theorem avoids_componentName (wanted : Option String) (animation : Animation) :
    Avoids ['\n'] (animation.componentName wanted).1.toList := by
  have hfamily : Avoids ['\n'] (Kind.family animation.family).componentName.toList := by
    cases animation.family <;> decide
  unfold Animation.componentName
  split
  · exact hfamily
  · split
    · rename_i hname
      exact avoids_of_isName hname
    · exact hfamily

theorem plain_ofAnimation {name : String} (hname : Avoids ['\n'] name.toList)
    (animation : Animation) : (ReactComponent.ofAnimation name animation).Plain := by
  refine ⟨hname, ?_, ?_⟩
  · intro parameter hp
    rcases List.mem_append.mp hp with hp | hp
    · simp only [ReactComponent.timingParameters, List.mem_cons, List.not_mem_nil, or_false] at hp
      rcases hp with rfl | rfl | rfl | rfl
      · exact ⟨by decide, by cases animation.family <;> decide⟩
      · exact ⟨by decide, Measure.avoids_number (by decide) _⟩
      · exact ⟨by decide, Measure.avoids_number (by decide) _⟩
      · exact ⟨by decide, avoids_easing (by decide) (by decide) _⟩
    · exact plain_parameters parameter hp
  · intro text htext
    obtain ⟨frame, hf, rfl⟩ := List.mem_map.mp htext
    refine ⟨Measure.avoids_number (by decide) _, fun field hfield => ?_⟩
    obtain ⟨hproperty, hvalue⟩ := avoids_declaration hf field hfield
    exact ⟨hproperty, hvalue⟩

end AnimationKit
