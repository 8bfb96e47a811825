import AnimationKit.Proofs.Css.Computed
import AnimationKit.Proofs.Export.Plain
import AnimationKit.Proofs.Preview.Sheet
import AnimationKit.Proofs.Preview.Showing

/-!
Preview and export show the same animation. A preview is a class of the sheet together with custom
properties; an export is text made from the animation itself. Both texts are read, and what is read
meets in every step.
-/
namespace AnimationKit.Preview

variable {config : Config} {animation : Animation} {family : Family}

/-! What a preview sets under a name. -/

def property (config : Config) (name : String) : Option String := (properties config).lookup name

theorem lookup_of_mem {name value : String} {entries : List (String × String)}
    (hnodup : (entries.map (·.1)).Nodup) (h : (name, value) ∈ entries) :
    entries.lookup name = some value := by
  induction entries with
  | nil => exact (List.not_mem_nil h).elim
  | cons entry entries ih =>
    obtain ⟨hnot, hnodup⟩ := List.nodup_cons.mp hnodup
    rcases List.mem_cons.mp h with rfl | h
    · exact List.lookup_cons_self
    · have hne : (name == entry.1) = false := by
        rw [beq_eq_false_iff_ne]
        rintro rfl
        exact hnot (List.mem_map.mpr ⟨_, h, rfl⟩)
      rw [List.lookup_cons, hne]
      exact ih hnodup h

/-- The timing is set for every family. -/
theorem property_of_timing {parameter value : String} {other : Family}
    (hkind : config.kind = .family family)
    (h : (propertyName other.name parameter, value) ∈ timingProperties config other) :
    property config (propertyName other.name parameter) = some value := by
  have hnodup := (List.nodup_append.mp (nodup_properties hkind)).1
  have hother : other ∈ Family.all := by cases other <;> decide
  apply lookup_of_mem hnodup
  exact List.mem_append_left _ (List.mem_flatMap.mpr ⟨other, hother, h⟩)

/-- The parameters of a family are not among the timings. -/
theorem property_of_parameter {parameter : String} (hkind : config.kind = .family family)
    (h : parameter ∈ parameterNames family) :
    property config (propertyName family.name parameter) =
      (familyProperties config family).lookup (propertyName family.name parameter) := by
  have htiming : (Family.all.flatMap (timingProperties config)).lookup
      (propertyName family.name parameter) = none := by
    rw [List.lookup_eq_none_iff]
    intro entry he
    have hnodup := (List.nodup_append.mp (nodup_propertyNames family)).1
    have hname : entry.1 ∈
        Family.all.flatMap fun f => ["duration", "delay", "easing"].map (propertyName f.name) := by
      obtain ⟨f, hf, he⟩ := List.mem_flatMap.mp he
      refine List.mem_flatMap.mpr ⟨f, hf, ?_⟩
      have hentry := List.mem_map_of_mem (f := (·.1)) he
      simpa [timingProperties] using hentry
    have hne := (List.nodup_append.mp hnodup).2.2 _ hname _ (List.mem_map_of_mem h)
    simpa using hne.symm
  rw [property, properties, hkind, List.lookup_append, htiming, Option.none_or]

/-- A reference with the default of a parameter comes to the parameter, the default filled in. -/
theorem computed_reference {α : Type} {parameter : String} {write : α → String} {given : Option α}
    (default : α)
    (h : property config (propertyName family.name parameter) = given.map write) :
    (reference family parameter (write default)).computed (property config) =
      .literal (write (given.getD default)) := by
  rw [reference, Css.Value.computed, h, Option.getD_map]

section parameters

theorem property_opacity_start (h : config.kind = .family .fade) :
    property config (propertyName Family.fade.name "opacity-start") =
      config.opacity.map fun o => Measure.number o.start := by
  rw [property_of_parameter h (by simp [parameterNames])]
  cases ho : config.opacity <;> simp [familyProperties, ho, Family.name]

theorem property_opacity_end (h : config.kind = .family .fade) :
    property config (propertyName Family.fade.name "opacity-end") =
      config.opacity.map fun o => Measure.number o.stop := by
  rw [property_of_parameter h (by simp [parameterNames])]
  cases ho : config.opacity <;>
    simp [familyProperties, ho, Family.name, propertyName, List.lookup_cons]

theorem property_scale_start (h : config.kind = .family .scale) :
    property config (propertyName Family.scale.name "start") = config.scale.map Measure.number := by
  rw [property_of_parameter h (by simp [parameterNames])]
  cases hs : config.scale <;> simp [familyProperties, hs, Family.name]

theorem property_rotate_start (h : config.kind = .family .rotate) :
    property config (propertyName Family.rotate.name "start") =
      config.degrees.map fun d => Measure.degrees d.start := by
  rw [property_of_parameter h (by simp [parameterNames])]
  cases hd : config.degrees <;> simp [familyProperties, hd, Family.name]

theorem property_rotate_end (h : config.kind = .family .rotate) :
    property config (propertyName Family.rotate.name "end") =
      config.degrees.map fun d => Measure.degrees d.stop := by
  rw [property_of_parameter h (by simp [parameterNames])]
  cases hd : config.degrees <;>
    simp [familyProperties, hd, Family.name, propertyName, List.lookup_cons]

theorem property_distance (h : config.kind = .family family)
    (hfamily : family = .slide ∨ family = .bounce) :
    property config (propertyName family.name "distance") =
      config.distance.map fun d => Measure.pixels d.abs := by
  rcases hfamily with rfl | rfl <;> rw [property_of_parameter h (by simp [parameterNames])] <;>
    cases hd : config.distance <;> simp [familyProperties, familyProperties.distanceProperty, hd]

theorem abs_distance : Defaults.distance.abs = Defaults.distance := rfl

theorem computed_distance (h : config.kind = .family family)
    (hfamily : family = .slide ∨ family = .bounce) :
    (distanceReference family).computed (property config) =
      .literal (Measure.pixels (config.distance.getD Defaults.distance).abs) := by
  have hreference := computed_reference Defaults.distance (property_distance h hfamily)
  rwa [abs_distance] at hreference

end parameters

/-! The block on an element, next to the export. -/

theorem computed_rule {token : String} {steps : List Css.Step} (h : config.kind = .family family) :
    ((block family token steps).rule.computed (property config)) =
      ⟨token, token, .literal (Measure.seconds config.duration), .literal config.easing.text,
        .literal (Measure.seconds config.delay)⟩ := by
  have hduration : property config (propertyName family.name "duration") =
      some (Measure.seconds config.duration) :=
    property_of_timing h (by simp [timingProperties])
  have hdelay : property config (propertyName family.name "delay") =
      some (Measure.seconds config.delay) :=
    property_of_timing h (by simp [timingProperties])
  have heasing : property config (propertyName family.name "easing") = some config.easing.text :=
    property_of_timing h (by simp [timingProperties])
  simp only [block, Css.Rule.computed, reference, Css.Value.computed, hduration, hdelay, heasing,
    Option.getD_some]

theorem same_step {exempt : Prop} {offset : Binary64} {name text : String} {value : Css.Value}
    (h : exempt ∨ (value.computed (property config)).Same (.literal text)) :
    ((step offset name value).computed (property config)).Same exempt
      (Animation.cssStep ⟨offset, [(name, text)]⟩) :=
  ⟨rfl, .cons ⟨rfl, h⟩ .nil⟩

theorem same_of_literal {function opening text : String} {value : Css.Value}
    (hopening : function ++ "(" = opening) (h : value.computed (property config) = .literal text) :
    ((Css.Value.call function value).computed (property config)).Same
      (.literal (opening ++ text ++ ")")) := by
  apply Css.Value.Same.text
  rw [Css.Value.computed, h, ← hopening]
  rfl

/-- A distance with the sign of its direction is the same length in both. -/
theorem same_translate {axis : Axis} {direction : Direction}
    (h : config.kind = .family .slide) :
    ((Css.Value.call (Motion.translateFunction axis)
      (.product (distanceReference .slide) (signFactor direction))).computed (property config)).Same
      (.literal (Motion.translate axis
        (direction.signed (config.distance.getD Defaults.distance).abs))) := by
  rw [Css.Value.computed, Css.Value.computed, computed_distance h (Or.inl rfl)]
  cases direction with
  | negative =>
    exact .length (Css.pixels?_product (Css.pixelsOfText?_pixels _) ratOfText?_minus_one)
      (by
        rw [Direction.signed, Css.pixelsOfText?_length, Measure.toRat_decimal_neg, mul_neg,
          mul_one])
  | positive =>
    exact .length (Css.pixels?_product (Css.pixelsOfText?_pixels _) ratOfText?_one)
      (by rw [Direction.signed, Css.pixelsOfText?_length, mul_one])

theorem same_lift_zero {height : Binary64} (h : height.isFinite = true) :
    ((Css.Value.call (Motion.translateFunction .y) (liftValue .zero)).computed
      (property config)).Same (.literal (Motion.translate .y (height.neg.mul .zero))) := by
  rw [← Binary64.isFinite_neg] at h
  obtain ⟨negative, hzero⟩ := Binary64.mul_zero h
  have hlift : liftValue .zero = .literal "0" := if_pos (by decide)
  have hlength : Measure.length (height.neg.mul .zero) = "0" := by
    rw [Measure.length, hzero, if_pos (Measure.number_zero negative)]
  rw [hlift, Motion.translate, hlength]
  exact same_of_literal rfl rfl

theorem same_lift_one (h : config.kind = .family .bounce)
    (hfinite : (config.distance.getD Defaults.distance).abs.isFinite = true) :
    ((Css.Value.call (Motion.translateFunction .y) (liftValue (.ofNat 1))).computed
      (property config)).Same (.literal (Motion.translate .y
        ((config.distance.getD Defaults.distance).abs.neg.mul (.ofNat 1)))) := by
  have hlift : liftValue (.ofNat 1) = .product (distanceReference .bounce) "-1" := by
    have hne : ¬ (Binary64.ofNat 1).equals .zero = true := by
      simp [Binary64.ofNat_one, Measure.equals_zero_signed, Binary64.binade_eq]
    rw [liftValue, if_neg hne, Measure.number_closed.2.2.1]
  rw [← Binary64.isFinite_neg] at hfinite
  rw [hlift, Css.Value.computed, Css.Value.computed, computed_distance h (Or.inr rfl),
    Binary64.mul_one hfinite]
  exact .length (Css.pixels?_product (Css.pixelsOfText?_pixels _) ratOfText?_minus_one)
    (by rw [Css.pixelsOfText?_length, Measure.toRat_decimal_neg, mul_neg, mul_one])

/-- The steps of a bounce agree where they lie, and in height but for the second hop. -/
theorem same_bounce (h : config.kind = .family .bounce)
    (hfinite : (config.distance.getD Defaults.distance).abs.isFinite = true)
    {entry : Binary64 × Binary64} (hentry : entry ∈ bounceSteps) :
    ((step entry.1 "transform"
      (.call (Motion.translateFunction .y) (liftValue entry.2))).computed (property config)).Same
      (Measure.percent entry.1 = "60%")
      (Animation.cssStep (Motion.transform entry.1 (Motion.translate .y
        ((config.distance.getD Defaults.distance).abs.neg.mul entry.2)))) := by
  apply same_step
  simp only [bounceSteps, List.mem_cons, List.not_mem_nil, or_false] at hentry
  rcases hentry with rfl | rfl | rfl | rfl | rfl | rfl | rfl
  · exact Or.inr (same_lift_zero hfinite)
  · exact Or.inr (same_lift_zero hfinite)
  · exact Or.inr (same_lift_one h hfinite)
  · exact Or.inr (same_lift_zero hfinite)
  · exact Or.inl Measure.number_closed.2.2.2
  · exact Or.inr (same_lift_zero hfinite)
  · exact Or.inr (same_lift_zero hfinite)

theorem isFinite_distance (h : config.validateFamily .bounce = .ok ()) :
    (config.distance.getD Defaults.distance).abs.isFinite = true := by
  rw [Binary64.isFinite_abs]
  cases hd : config.distance with
  | none => exact (by decide +kernel : Defaults.distance.isFinite = true)
  | some d =>
    simp only [Config.validateFamily, hd] at h
    split at h
    · assumption
    · simp at h

theorem same_steps (h : Animation.ofConfig config = .ok animation) :
    List.Forall₂
      (fun step other =>
        step.Same (animation.family = .bounce ∧ other.percentage = "60%") other)
      ((blockOf config animation.family).computed (property config)).steps
      animation.cssBlock.steps := by
  obtain ⟨family, hkind, hvalid, rfl⟩ := Animation.ofConfig_ok h
  cases family with
  | fade =>
    refine .cons (same_step (Or.inr (.text ?_))) (.cons (same_step (Or.inr (.text ?_))) .nil)
    · rw [computed_reference Defaults.opacity (property_opacity_start hkind)]
    · rw [computed_reference Defaults.opacity (property_opacity_end hkind)]
  | slide =>
    refine .cons (same_step (Or.inr (same_translate hkind))) (.cons (same_step (Or.inr ?_)) .nil)
    have hlength : Measure.length .zero = "0" := if_pos (Measure.number_zero false)
    rw [Motion.translate, hlength]
    exact same_of_literal rfl rfl
  | scale =>
    refine .cons (same_step (Or.inr ?_)) (.cons (same_step (Or.inr (.text rfl))) .nil)
    exact same_of_literal rfl (computed_reference Defaults.scale (property_scale_start hkind))
  | rotate =>
    refine .cons (same_step (Or.inr ?_)) (.cons (same_step (Or.inr ?_)) .nil)
    · exact same_of_literal rfl (computed_reference Defaults.degrees (property_rotate_start hkind))
    · exact same_of_literal rfl (computed_reference Defaults.degrees (property_rotate_end hkind))
  | bounce =>
    simp only [blockOf, bounceBlock, block, Css.Block.computed, Animation.cssBlock,
      Animation.keyframes, Motion.ofConfig, Motion.keyframes, List.map_map,
      List.forall₂_map_left_iff, List.forall₂_map_right_iff, List.forall₂_same]
    rintro ⟨offset, lift⟩ hentry
    exact (same_bounce hkind (isFinite_distance hvalid) hentry).imp fun hpercent =>
      ⟨trivial, hpercent⟩

/-- The style sheet that a config is exported as is read back as the block of its animation. -/
theorem read?_cssSource (h : Animation.ofConfig config = .ok animation) :
    ∃ css, config.cssSource = .ok css ∧ Css.Block.read? css.text = some animation.cssBlock := by
  refine ⟨⟨animation.cssText, []⟩, ?_, Css.read?_render (plain_cssBlock animation)⟩
  rw [Config.cssSource, h]
  rfl

/-- What the text of the sheet has under the token of a config, with the properties of the config in
place, is what the text of the export has. Both rules keep the first and the last step in force, as
their readers demand it. Only the height of the second hop of a bounce is left open. -/
theorem same_export (h : Animation.ofConfig config = .ok animation) :
    ∃ block css exported, token? config = some block.name ∧
      Css.Declares sheetText block ∧ block.rule.keyframes = block.name ∧
      config.cssSource = .ok css ∧ Css.Block.read? css.text = some exported ∧
      exported.rule.selector = exported.name ∧ exported.rule.keyframes = exported.name ∧
      (block.computed (property config)).rule =
        { exported.rule with selector := block.name, keyframes := block.name } ∧
      List.Forall₂
        (fun step other =>
          step.Same (animation.family = .bounce ∧ other.percentage = "60%") other)
        (block.computed (property config)).steps exported.steps := by
  obtain ⟨family, hkind, -, rfl⟩ := Animation.ofConfig_ok h
  obtain ⟨css, hcss, hread⟩ := read?_cssSource h
  have htoken : token? config = some (blockOf config family).name := by
    rw [name_blockOf]
    simp [token?, hkind]
  have hkeyframes : (blockOf config family).rule.keyframes = (blockOf config family).name := by
    cases family <;> rfl
  refine ⟨blockOf config family, css, _, htoken, declares_blockOf config family, hkeyframes, hcss,
    hread, rfl, rfl, ?_, same_steps h⟩
  cases family <;> exact computed_rule hkind

/-- A slide from the top over twenty and a half pixels. -/
def slideFromTop : Config :=
  { kind := .family .slide, duration := .ofNat 1, distance := some (Binary64.ofQuotient 41 2).neg,
    axis := some .y }

theorem same_export_slideFromTop :
    ∃ animation, Animation.ofConfig slideFromTop = .ok animation ∧
      ∃ block css exported, token? slideFromTop = some block.name ∧
        Css.Declares sheetText block ∧ block.rule.keyframes = block.name ∧
        slideFromTop.cssSource = .ok css ∧ Css.Block.read? css.text = some exported ∧
        exported.rule.selector = exported.name ∧ exported.rule.keyframes = exported.name ∧
        (block.computed (property slideFromTop)).rule =
          { exported.rule with selector := block.name, keyframes := block.name } ∧
        List.Forall₂
          (fun step other =>
            step.Same (animation.family = .bounce ∧ other.percentage = "60%") other)
          (block.computed (property slideFromTop)).steps exported.steps := by
  have hvalid : Animation.ofConfig slideFromTop =
      .ok ⟨.slide, ⟨.ofNat 1, .zero, .default⟩, .ofConfig slideFromTop .slide⟩ := by
    decide +kernel
  exact ⟨_, hvalid, same_export hvalid⟩

end AnimationKit.Preview
