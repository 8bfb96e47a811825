import AnimationKit.Preview.Sheet
import AnimationKit.Proofs.Css.Compact
import AnimationKit.Proofs.Measure

/-!
The text of the sheet that previews rely on declares one animation and one class for every token.
-/
namespace AnimationKit.Preview

open Text

variable {config : Config} {family : Family} {value : Css.Value}

/-! Each block can be read. -/

/-- The marks of a sheet that no word of it holds. -/
def sheetMarks : List Char := ['(', ')', '*', ',', ':', ';', '\n']

theorem avoids_propertyName (family : Family) {parameter : String}
    (h : Avoids sheetMarks parameter.toList) :
    Avoids sheetMarks (propertyName family.name parameter).toList := by
  have hopening : Avoids sheetMarks "--mf-".toList := by decide
  have hfamily : Avoids sheetMarks family.name.toList := by cases family <;> decide
  have hdash : Avoids sheetMarks "-".toList := by decide
  rw [propertyName, String.toList_append, String.toList_append, String.toList_append]
  exact ((hopening.append hfamily).append hdash).append h

theorem legible_reference (family : Family) {parameter fallback : String}
    (hparameter : Avoids sheetMarks parameter.toList)
    (hfallback : Avoids sheetMarks fallback.toList) :
    (reference family parameter fallback).Legible ∧ (reference family parameter fallback).Word := by
  have hname := avoids_propertyName family hparameter
  exact ⟨.reference (hname.mono (by simp [sheetMarks])) (hfallback.mono (by simp [sheetMarks])),
    .reference (hname.mono (by simp [sheetMarks])) (hfallback.mono (by simp [sheetMarks]))⟩

theorem avoids_unit {unit : String} (h : Avoids sheetMarks unit.toList) (value : Binary64) :
    Avoids sheetMarks (Measure.number value ++ unit).toList := by
  rw [String.toList_append]
  exact (Measure.avoids_number (by decide) value).append h

theorem legible_distance (family : Family) : (distanceReference family).Legible :=
  (legible_reference family (by decide) (avoids_unit (by decide) _)).1

theorem legible_zero : (Css.Value.literal "0").Legible := .literal (by decide)

theorem legible_liftValue (lift : Binary64) : (liftValue lift).Legible := by
  unfold liftValue
  split
  · exact legible_zero
  · exact .product (legible_distance _) (Measure.avoids_number (by decide) _)

theorem legible_step (offset : Binary64) {property : String}
    (hproperty : Avoids sheetMarks property.toList) (h : value.Legible) :
    (step offset property value).Legible := by
  constructor
  · have hunit : Avoids [' ', '\n'] "%".toList := by decide
    rw [step, Measure.percent, String.toList_append]
    exact (Measure.avoids_number (by decide) _).append hunit
  · exact List.cons_ne_nil _ _
  · intro declaration hd
    obtain rfl := List.mem_singleton.mp hd
    exact ⟨hproperty.mono (by simp [sheetMarks]), h⟩

theorem legible_block (family : Family) {token : String} {steps : List Css.Step}
    (htoken : Avoids ['(', ')', ' ', '\n'] token.toList) (hsteps : ∀ step ∈ steps, step.Legible) :
    (block family token steps).Legible :=
  ⟨htoken.mono (by simp), hsteps, htoken.mono (by simp), htoken,
    legible_reference family (by decide) (by decide),
    legible_reference family (by decide) (by decide),
    legible_reference family (by decide) (by decide)⟩

theorem legible_pair {first last : Css.Step} (hfirst : first.Legible) (hlast : last.Legible) :
    ∀ step ∈ [first, last], step.Legible :=
  List.forall_mem_cons.mpr ⟨hfirst, List.forall_mem_singleton.mpr hlast⟩

theorem legible_transform (offset : Binary64) {function : String}
    (hfunction : function ∈ ["translateX", "translateY", "scale", "rotate"]) (h : value.Legible) :
    (step offset "transform" (.call function value)).Legible := by
  have hname : Avoids ['(', ';', '\n'] function.toList ∧ function ∉ ["var", "calc"] := by
    simp only [List.mem_cons, List.not_mem_nil, or_false] at hfunction
    rcases hfunction with rfl | rfl | rfl | rfl <;> decide
  exact legible_step offset (by decide) (.call h hname.1 hname.2)

theorem legible_fadeBlock : fadeBlock.Legible := by
  have hnumber : ∀ value, Avoids sheetMarks (Measure.number value).toList :=
    Measure.avoids_number (by decide)
  apply legible_block .fade (by decide)
  apply legible_pair
  · exact legible_step _ (by decide) (legible_reference _ (by decide) (hnumber _)).1
  · exact legible_step _ (by decide) (legible_reference _ (by decide) (hnumber _)).1

theorem legible_slideBlock (axis : Axis) (direction : Direction) :
    (slideBlock axis direction).Legible := by
  have hfunction :
      Motion.translateFunction axis ∈ ["translateX", "translateY", "scale", "rotate"] := by
    cases axis <;> simp [Motion.translateFunction]
  have hfactor : Avoids ['*', ';', '\n'] (signFactor direction).toList := by
    cases direction <;> decide
  apply legible_block .slide (by cases axis <;> cases direction <;> decide)
  apply legible_pair
  · exact legible_transform _ hfunction (.product (legible_distance _) hfactor)
  · exact legible_transform _ hfunction legible_zero

theorem legible_scaleBlock : scaleBlock.Legible := by
  have hone : (Css.Value.literal "1").Legible := .literal (by decide)
  apply legible_block .scale (by decide)
  apply legible_pair
  · exact legible_transform _ (by simp)
      (legible_reference _ (by decide) (Measure.avoids_number (by decide) _)).1
  · exact legible_transform _ (by simp) hone

theorem legible_rotateBlock : rotateBlock.Legible := by
  apply legible_block .rotate (by decide)
  apply legible_pair
  · exact legible_transform _ (by simp)
      (legible_reference _ (by decide) (avoids_unit (by decide) _)).1
  · exact legible_transform _ (by simp)
      (legible_reference _ (by decide) (avoids_unit (by decide) _)).1

theorem legible_bounceBlock : bounceBlock.Legible := by
  refine legible_block .bounce (by decide) fun _ hs => ?_
  obtain ⟨entry, -, rfl⟩ := List.mem_map.mp hs
  exact legible_transform _ (by simp [Motion.translateFunction]) (legible_liftValue _)

theorem legible_sheet : ∀ block ∈ sheet, block.Legible := by
  simp only [sheet, List.forall_mem_cons, List.not_mem_nil, false_imp_iff, implies_true, and_true]
  exact ⟨legible_fadeBlock, legible_slideBlock _ _, legible_slideBlock _ _, legible_slideBlock _ _,
    legible_slideBlock _ _, legible_scaleBlock, legible_rotateBlock, legible_bounceBlock⟩

/-! The block of the sheet for a config. -/

/-- The animation of the sheet that a config selects. -/
def blockOf (config : Config) : Family → Css.Block
  | .fade => fadeBlock
  | .slide => slideBlock (config.axis.getD Defaults.axis) (.ofDistance config.distance)
  | .scale => scaleBlock
  | .rotate => rotateBlock
  | .bounce => bounceBlock

theorem name_blockOf (config : Config) (family : Family) :
    (blockOf config family).name = familyToken config family := by
  cases family <;> rfl

theorem blockOf_mem (config : Config) (family : Family) : blockOf config family ∈ sheet := by
  unfold blockOf sheet
  cases family with
  | slide =>
    cases config.axis.getD Defaults.axis <;> cases Direction.ofDistance config.distance <;> simp
  | _ => simp

/-- No two animations of the sheet share a name. -/
theorem nodup_names : (sheet.map (·.name)).Nodup := by
  have hnames : sheet.map (·.name) =
      ["mf-fade", "mf-slide-from-left", "mf-slide-from-right", "mf-slide-from-top",
        "mf-slide-from-bottom", "mf-scale", "mf-rotate", "mf-bounce"] := rfl
  rw [hnames]
  decide

/-- Every rule of the sheet selects the class that its animation is named for. -/
theorem selector_eq_name : ∀ block ∈ sheet, block.rule.selector = block.name := by
  simp only [sheet, List.forall_mem_cons, List.not_mem_nil, false_imp_iff, implies_true, and_true]
  exact ⟨rfl, rfl, rfl, rfl, rfl, rfl, rfl, rfl⟩

theorem declares_blockOf (config : Config) (family : Family) :
    Css.Declares sheetText (blockOf config family) :=
  Css.declares_render legible_sheet nodup_names selector_eq_name (blockOf_mem config family)

end AnimationKit.Preview
