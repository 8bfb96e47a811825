import AnimationKit.Export.Panel
import AnimationKit.Proofs.Export.Lossless

/-!
The name of a component. It is written at two places of the source text and at no other, and the
rest of the text is the same under every name.
-/
namespace AnimationKit

open Text

/-! Identifiers. -/

/-- An upper-case letter, then letters, digits and `_`, all of them ASCII. -/
inductive Identifier : List Char → Prop
  | mk {first : Char} {rest : List Char} : 'A' ≤ first → first ≤ 'Z' →
      (∀ c ∈ rest, ('A' ≤ c ∧ c ≤ 'Z') ∨ ('a' ≤ c ∧ c ≤ 'z') ∨ ('0' ≤ c ∧ c ≤ '9') ∨ c = '_') →
      Identifier (first :: rest)

theorem isName_iff {name : String} :
    ReactComponent.isName name = true ↔ Identifier name.toList := by
  have hupper (c : Char) : c.isUpper = true ↔ 'A' ≤ c ∧ c ≤ 'Z' := by
    unfold Char.isUpper
    simp [Char.le_def]
  have hpart (c : Char) : (c.isAlphanum || c == '_') = true ↔
      ('A' ≤ c ∧ c ≤ 'Z') ∨ ('a' ≤ c ∧ c ≤ 'z') ∨ ('0' ≤ c ∧ c ≤ '9') ∨ c = '_' := by
    unfold Char.isAlphanum Char.isAlpha Char.isUpper Char.isLower
    simp [Char.isDigit, Char.le_def, or_assoc]
  unfold ReactComponent.isName
  cases name.toList with
  | nil =>
    refine ⟨fun h => ?_, fun h => ?_⟩
    · simp at h
    · cases h
  | cons first rest =>
    simp only [Bool.and_eq_true, List.all_eq_true, hupper, hpart]
    constructor
    · rintro ⟨⟨hlow, hhigh⟩, hrest⟩
      exact .mk hlow hhigh hrest
    · rintro ⟨hlow, hhigh, hrest⟩
      exact ⟨⟨hlow, hhigh⟩, hrest⟩

/-! Texts around a name. -/

/-- What stands before, between and behind the two places of a name. -/
structure Surroundings where
  before : String
  between : String
  behind : String

/-- The text with a name at both places. -/
def Surroundings.around (s : Surroundings) (name : String) : String :=
  s.before ++ name ++ s.between ++ name ++ s.behind

/-- Every place of a word in a text: what comes before it there, and what comes behind it. -/
def places (word text : String) : Set (String × String) :=
  {place | text = place.1 ++ word ++ place.2}

section places

variable {mark : Char} {first middle last before behind stem rest : List Char}
  {s : Surroundings} {own : String}

/-- A text is cut at its first mark or at a later one. -/
theorem cut_cases (hfirst : mark ∉ first) (h : first ++ mark :: last = before ++ mark :: behind) :
    (before = first ∧ behind = last) ∨
      ∃ more, before = first ++ mark :: more ∧ last = more ++ mark :: behind := by
  have hcut := congrArg (cutFirst mark) h
  by_cases hmark : mark ∈ before
  · obtain ⟨start, more, rfl, hstart⟩ := List.eq_append_cons_of_mem hmark
    rw [List.append_assoc, List.cons_append, cutFirst_append hfirst, cutFirst_append hstart,
      Prod.mk.injEq] at hcut
    obtain ⟨rfl, hlast⟩ := hcut
    exact Or.inr ⟨more, rfl, hlast⟩
  · rw [cutFirst_append hfirst, cutFirst_append hmark, Prod.mk.injEq] at hcut
    exact Or.inl ⟨hcut.1.symm, hcut.2.symm⟩

/-- A text with two marks is cut at one of them. -/
theorem two_cuts (hfirst : mark ∉ first) (hmiddle : mark ∉ middle) (hlast : mark ∉ last)
    (h : first ++ mark :: (middle ++ mark :: last) = before ++ mark :: behind) :
    (before = first ∧ behind = middle ++ mark :: last) ∨
      (before = first ++ mark :: middle ∧ behind = last) := by
  rcases cut_cases hfirst h with hcut | ⟨more, rfl, hrest⟩
  · exact Or.inl hcut
  · rcases cut_cases hmiddle hrest with ⟨rfl, rfl⟩ | ⟨more', rfl, hbeyond⟩
    · exact Or.inr ⟨rfl, rfl⟩
    · rw [hbeyond] at hlast
      exact absurd (List.mem_append_right _ List.mem_cons_self) hlast

/-- A word with a letter of its own is found where it was put, and nowhere else. -/
theorem places_around (hown : own.toList = stem ++ mark :: rest) (hstem : mark ∉ stem)
    (hrest : mark ∉ rest) (hbefore : mark ∉ s.before.toList) (hbetween : mark ∉ s.between.toList)
    (hbehind : mark ∉ s.behind.toList) :
    places own (s.around own) =
      {(s.before, s.between ++ own ++ s.behind), (s.before ++ own ++ s.between, s.behind)} := by
  ext place
  obtain ⟨before, behind⟩ := place
  simp only [places, Set.mem_ofPred_eq, Set.mem_insert_iff, Set.mem_singleton_iff, Prod.mk.injEq]
  constructor
  · intro h
    have hchars : (s.before.toList ++ stem) ++ mark :: ((rest ++ s.between.toList ++ stem) ++
        mark :: (rest ++ s.behind.toList)) =
          (before.toList ++ stem) ++ mark :: (rest ++ behind.toList) := by
      have htext := congrArg String.toList h
      simpa only [Surroundings.around, String.toList_append, hown, List.append_assoc,
        List.cons_append] using htext
    rcases two_cuts (by simp [hbefore, hstem]) (by simp [hrest, hbetween, hstem])
      (by simp [hrest, hbehind]) hchars with ⟨hstart, hend⟩ | ⟨hstart, hend⟩
    · left
      have hrest : rest ++ behind.toList =
          rest ++ (s.between.toList ++ (stem ++ mark :: rest) ++ s.behind.toList) := by
        simpa using hend
      refine ⟨String.toList_inj.mp (List.append_cancel_right hstart), String.toList_inj.mp ?_⟩
      simp only [String.toList_append, hown]
      exact List.append_cancel_left hrest
    · right
      have hstem : before.toList ++ stem =
          s.before.toList ++ (stem ++ mark :: rest) ++ s.between.toList ++ stem := by
        simpa using hstart
      refine ⟨String.toList_inj.mp ?_, String.toList_inj.mp (List.append_cancel_left hend)⟩
      simp only [String.toList_append, hown]
      exact List.append_cancel_right hstem
  · rintro (⟨rfl, rfl⟩ | ⟨rfl, rfl⟩)
    · simp only [Surroundings.around, String.append_assoc]
    · rfl

end places

/-! The source text. -/

namespace ReactComponent

variable {component : ReactComponent}

/-- The source text down to the declaration of the component. -/
def opening (component : ReactComponent) : String :=
  "import \x7b useEffect, useRef \x7d from \"react\";\n\n" ++
  "const animation = \x7b\n" ++
  String.join (component.parameters.map fun p => "  " ++ p.render ++ "\n") ++
  "\x7d;\n\n" ++
  "const keyframes = [\n" ++
  String.join (component.frames.map frameText) ++
  "];\n\n"

def surroundings (component : ReactComponent) : Surroundings :=
  ⟨component.opening ++ "export function ",
    "(\x7b children \x7d) \x7b\n" ++ body ++ "export default ", ";\n"⟩

theorem render_eq_around : component.render = component.surroundings.around component.name := by
  apply String.toList_inj.mp
  unfold render Surroundings.around surroundings opening
  simp only [String.toList_append, List.append_assoc]

theorem avoids_unlines {marks : List Char} {pieces : List (List Char)} (hend : Avoids marks ['\n'])
    (h : ∀ line ∈ pieces, Avoids marks line) : Avoids marks (unlines pieces) := by
  intro c hc
  obtain ⟨line, hline, hc⟩ := List.mem_flatMap.mp hc
  exact (h line hline).append hend c hc

/-- What stands around the parameters and the keyframes. -/
def openingWords : List String :=
  ["import \x7b useEffect, useRef \x7d from \"react\";\n\n", "const animation = \x7b\n",
    "\x7d;\n\n", "const keyframes = [\n", "];\n\n"]

theorem avoids_opening {marks : List Char} (hend : Avoids marks ['\n'])
    (hfixed : ∀ text ∈ openingWords, Avoids marks text.toList)
    (hparameters : ∀ parameter ∈ component.parameters, Avoids marks parameter.line)
    (hframes : ∀ frame ∈ component.frames, Avoids marks (frameLine frame)) :
    Avoids marks component.opening.toList := by
  have hlines : Avoids marks (unlines (component.parameters.map Parameter.line)) :=
    avoids_unlines hend (List.forall_mem_map.mpr hparameters)
  have hsteps : Avoids marks (unlines (component.frames.map frameLine)) :=
    avoids_unlines hend (List.forall_mem_map.mpr hframes)
  simp only [openingWords, List.forall_mem_cons] at hfixed
  unfold opening
  simp only [String.toList_append, toList_parameters, toList_frames, avoids_append,
    hfixed, hlines, hsteps, and_self]

end ReactComponent

namespace Animation

variable {animation : Animation}

/-- The name that the family gives its component. -/
def ownName (animation : Animation) : String := (Kind.family animation.family).componentName

/-- The text around the name, the same for every name. -/
def surroundings (animation : Animation) : Surroundings :=
  (ReactComponent.ofAnimation animation.ownName animation).surroundings

theorem reactSource_text (wanted : Option String) : (animation.reactSource wanted).text =
    animation.surroundings.around (animation.componentName wanted).1 :=
  ReactComponent.render_eq_around

theorem ownName_toList : ∃ stem, 'A' ∉ stem ∧
    animation.ownName.toList = stem ++ 'A' :: "nimation".toList := by
  unfold ownName
  cases animation.family with
  | fade => exact ⟨"Fade".toList, by decide, rfl⟩
  | slide => exact ⟨"Slide".toList, by decide, rfl⟩
  | scale => exact ⟨"Scale".toList, by decide, rfl⟩
  | rotate => exact ⟨"Rotate".toList, by decide, rfl⟩
  | bounce => exact ⟨"Bounce".toList, by decide, rfl⟩

theorem avoids_parameters (animation : Animation) :
    ∀ parameter ∈ ReactComponent.timingParameters animation ++ animation.motion.parameters,
      ∀ text ∈ parameter.texts, Avoids ['A'] text.toList := by
  have hnumber : ∀ value, Avoids ['A'] (Measure.number value).toList :=
    Measure.avoids_number (by decide)
  have heasing : Avoids ['A'] animation.timing.easing.text.toList :=
    avoids_easing (by decide) (by decide) _
  have hfamily : Avoids ['A'] animation.family.name.toList := by
    cases animation.family <;> decide
  have haxis (axis : Axis) : Avoids ['A'] axis.name.toList := by cases axis <;> decide
  have hwords : ∀ word ∈ ["type", "duration", "delay", "easing", "opacity", "axis", "distance",
      "scale", "degrees"], Avoids ['A'] word.toList := by decide
  simp only [List.forall_mem_cons] at hwords
  rw [List.forall_mem_append]
  constructor
  · simp only [ReactComponent.timingParameters, List.forall_mem_cons, Parameter.texts, hwords,
      hnumber, heasing, hfamily, List.not_mem_nil, false_implies, implies_true, and_self]
  · cases animation.motion <;>
      simp only [Motion.parameters, Motion.spanParameter, List.forall_mem_cons, Parameter.texts,
        hwords, hnumber, haxis, List.not_mem_nil, false_implies, implies_true, and_self]

/-- Only the names of components have this letter. -/
theorem avoids_opening (animation : Animation) (name : String) :
    Avoids ['A'] (ReactComponent.ofAnimation name animation).opening.toList := by
  have hproperty : ∀ property ∈ ["opacity", "transform"], Avoids ['A'] property.toList := by decide
  refine ReactComponent.avoids_opening (by decide) (by decide) (fun parameter hp => ?_)
    (fun frame hf => ?_)
  · exact Parameter.avoids_line (by decide) (avoids_parameters animation parameter hp)
  · obtain ⟨step, hstep, rfl⟩ := List.mem_map.mp hf
    exact ReactComponent.avoids_frameLine (by decide) (Measure.avoids_number (by decide) _)
      fun d hd =>
        ⟨hproperty _ (property_mem hstep d hd), avoids_value (by decide) (by decide) hstep d hd⟩

theorem places_ownName (animation : Animation) :
    places animation.ownName (animation.surroundings.around animation.ownName) =
      {(animation.surroundings.before,
          animation.surroundings.between ++ animation.ownName ++ animation.surroundings.behind),
        (animation.surroundings.before ++ animation.ownName ++ animation.surroundings.between,
          animation.surroundings.behind)} := by
  obtain ⟨stem, hstem, hname⟩ := animation.ownName_toList
  have hbefore : Avoids ['A'] animation.surroundings.before.toList := by
    have hend : Avoids ['A'] "export function ".toList := by decide
    unfold surroundings ReactComponent.surroundings
    rw [String.toList_append]
    exact (animation.avoids_opening animation.ownName).append hend
  have hbetween : Avoids ['A']
      ("(\x7b children \x7d) \x7b\n" ++ ReactComponent.body ++ "export default ").toList := by
    have hopening : Avoids ['A'] "(\x7b children \x7d) \x7b\n".toList := by decide
    have hbody : Avoids ['A'] ReactComponent.body.toList := by
      have hline : ∀ line ∈ ReactComponent.bodyLines, Avoids ['A'] line.toList := by decide
      rw [ReactComponent.toList_body]
      exact ReactComponent.avoids_unlines (by decide) (List.forall_mem_map.mpr hline)
    have hend : Avoids ['A'] "export default ".toList := by decide
    rw [String.toList_append, String.toList_append]
    exact (hopening.append hbody).append hend
  have hbehind : Avoids ['A'] ";\n".toList := by decide
  exact places_around hname hstem (by decide) (hbefore.not_mem (by simp))
    (hbetween.not_mem (by simp)) (hbehind.not_mem (by simp))

end Animation

/-! Every way to export. -/

/-- The text of the component for a config. -/
def Config.reactText (config : Config) (wanted : Option String) : Except AnimationError String :=
  (config.reactSource wanted).map Source.text

def Config.cssText (config : Config) : Except AnimationError String :=
  config.cssSource.map Source.text

/-- A name stands at two places of a text, and it is all that an identifier changes in it. What is
no identifier changes nothing. -/
structure NamedAt (s : Surroundings) (own : String)
    (text : Option String → Except AnimationError String) : Prop where
  declaration : ∃ opening, s.before = opening ++ "export function "
  defaultExport : ∃ opening, s.between = opening ++ "export default "
  places : places own (s.around own) =
    {(s.before, s.between ++ own ++ s.behind), (s.before ++ own ++ s.between, s.behind)}
  unnamed : text none = .ok (s.around own)
  named : ∀ name, Identifier name.toList → text (some name) = .ok (s.around name)
  misnamed : ∀ name, ¬ Identifier name.toList → text (some name) = text none

variable {config : Config} {animation : Animation}

theorem namedAt_reactText (h : Animation.ofConfig config = .ok animation) :
    NamedAt animation.surroundings config.kind.componentName config.reactText := by
  have htext (wanted : Option String) : config.reactText wanted =
      .ok (animation.surroundings.around (animation.componentName wanted).1) := by
    rw [Config.reactText, Config.reactSource, h, ← Animation.reactSource_text]
    rfl
  have hown : config.kind.componentName = animation.ownName := by
    obtain ⟨family, hkind, -, rfl⟩ := Animation.ofConfig_ok h
    rw [hkind]
    rfl
  rw [hown]
  refine ⟨⟨_, rfl⟩, ⟨_, rfl⟩, animation.places_ownName, htext none, fun name hname => ?_,
    fun name hname => ?_⟩
  · rw [htext, Animation.componentName, if_pos (isName_iff.mpr hname)]
  · have hfallback : animation.componentName (some name) =
        (animation.ownName, [.badComponentName name]) := by
      rw [← isName_iff] at hname
      exact if_neg hname
    rw [htext, htext, hfallback]
    rfl

/-- A wanted name changes nothing but itself, and the settings have no other say in an export. -/
theorem name_changes_itself_only (config : Config) :
    (∀ settings, Panel.exportOf config .react settings = config.reactText settings.componentName) ∧
      (∀ settings, Panel.exportOf config .css settings = config.cssText) ∧
      (∀ animation, Animation.ofConfig config = .ok animation →
        ∃ s, NamedAt s config.kind.componentName config.reactText) ∧
      ∀ cause, Animation.ofConfig config = .error cause →
        (∀ wanted, config.reactText wanted = .error cause) ∧ config.cssText = .error cause := by
  refine ⟨fun settings => ?_, fun settings => ?_, fun animation h => ⟨_, namedAt_reactText h⟩,
    fun cause h => ⟨fun wanted => ?_, ?_⟩⟩
  · unfold Panel.exportOf Config.reactText Config.source Config.reactSource
    cases Animation.ofConfig config <;> rfl
  · unfold Panel.exportOf Config.cssText Config.source Config.cssSource
    cases Animation.ofConfig config <;> rfl
  · rw [Config.reactText, Config.reactSource, h]
    rfl
  · rw [Config.cssText, Config.cssSource, h]
    rfl

/-- A fade can be renamed; a config without an animation is refused under every name. -/
theorem names_of_fade_and_flip :
    (∃ s, NamedAt s "FadeAnimation" Config.default.reactText) ∧
      ∀ wanted, Config.reactText { Config.default with kind := .unsupported "flip" } wanted =
        .error (.unsupportedKind "flip") := by
  obtain ⟨animation, hfade⟩ := Config.animation_default
  exact ⟨(name_changes_itself_only .default).2.2.1 animation hfade,
    ((name_changes_itself_only _).2.2.2 _ rfl).1⟩

end AnimationKit
