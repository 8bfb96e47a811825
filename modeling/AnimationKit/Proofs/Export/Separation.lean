import AnimationKit.Proofs.Studio.Refinement

/-!
The parts of a panel go their own ways. Text, preview and copies each follow some of its operations,
and nothing else that is done with the panel is seen in them.
-/
namespace AnimationKit

/-- The calls among some effects, on all elements, in order. -/
def elementCalls (effects : List Effect) : List (ElementId × ElementCall) :=
  effects.filterMap fun
    | .call id call => some (id, call)
    | .note _ => none

section elementCalls

variable {effects later : List Effect}

@[simp] theorem elementCalls_append :
    elementCalls (effects ++ later) = elementCalls effects ++ elementCalls later := by
  simp [elementCalls]

@[simp] theorem elementCalls_map_note {notes : List Note} :
    elementCalls (notes.map .note) = [] := by
  simp [elementCalls, List.filterMap_map]

end elementCalls

namespace Binder

/-- All effects of some operations. -/
def effects (binder : Binder) : List Operation → List Effect
  | [] => []
  | operation :: operations =>
    (binder.perform operation).effects ++ effects (binder.perform operation).state operations

end Binder

/-- What is done with copies. For a new one it counts whether there is a text, and not which. -/
inductive CopyStep where
  | start (hasText : Bool)
  | finish (id : UInt64) (result : CopyResult) (now : Binary64)
  | dismiss

def Copies.advance (copies : Copies) : CopyStep → Copies
  | .start hasText => if hasText then (copies.start "").1 else copies
  | .finish id result now => (copies.finish id result now).1
  | .dismiss => copies.dismiss

namespace Panel

variable {panel other : Panel} {operation : Operation}
  {before controls after operations operations' : List Operation}

namespace Operation

/-- The text comes from these. -/
def isInput : Operation → Bool
  | bind _ _ | setConfig _ | setFormat _ => true
  | attach _ | detach | startCopy | endCopy _ _ _ | dismissFailure | replay | pause | resume =>
    false

/-- The preview takes part in these. -/
def isShown : Operation → Bool
  | bind _ _ | setConfig _ | attach _ | detach | replay | pause | resume => true
  | setFormat _ | startCopy | endCopy _ _ _ | dismissFailure => false

/-- The preview is moved or played, with the config as it is. -/
def isControl : Operation → Bool
  | attach _ | detach | replay | pause | resume => true
  | bind _ _ | setConfig _ | setFormat _ | startCopy | endCopy _ _ _ | dismissFailure => false

theorem not_input_of_control (h : operation.isControl = true) : operation.isInput = false := by
  cases operation <;> simp [isControl] at h <;> rfl

end Operation

/-! The text. -/

theorem inputs_run (panel : Panel) (operations : List Operation) :
    (panel.run operations).config =
        (operations.filterMap Operation.config?).getLast?.getD panel.config ∧
      (panel.run operations).format =
        (operations.filterMap Operation.format?).getLast?.getD panel.format := by
  induction operations using List.reverseRecOn with
  | nil => exact ⟨rfl, rfl⟩
  | append_singleton operations operation ih =>
    have hleads := (panel.run operations).leads_perform operation
    rw [run_append_singleton, hleads.config, hleads.format, ih.1, ih.2]
    constructor
    · cases h : operation.config? <;> simp [h]
    · cases h : operation.format? <;> simp [h]

theorem fresh_run (h : panel.Fresh) : (panel.run operations).Fresh := by
  induction operations generalizing panel with
  | nil => exact h
  | cons operation operations ih => exact ih ((panel.leads_perform operation).fresh h)

theorem filterMap_inputs {α : Type} (input? : Operation → Option α)
    (h : ∀ operation, operation.isInput = false → input? operation = none) :
    (operations.filter Operation.isInput).filterMap input? = operations.filterMap input? := by
  rw [List.filterMap_filter]
  apply List.filterMap_congr
  intro operation _
  cases hinput : operation.isInput with
  | true => rfl
  | false => exact (h operation hinput).symm

/-- Config, format and text come from the inputs. -/
theorem source_of_inputs (h : panel.Fresh)
    (hinputs : operations.filter Operation.isInput = operations'.filter Operation.isInput) :
    (panel.run operations).config = (panel.run operations').config ∧
      (panel.run operations).format = (panel.run operations').format ∧
      (panel.run operations).exported = (panel.run operations').exported := by
  have hsource : ∀ {α : Type} (input? : Operation → Option α),
      (∀ operation, operation.isInput = false → input? operation = none) →
      operations.filterMap input? = operations'.filterMap input? := by
    intro α input? hnone
    rw [← filterMap_inputs input? hnone, hinputs, filterMap_inputs input? hnone]
  have hconfig : (panel.run operations).config = (panel.run operations').config := by
    rw [(inputs_run panel _).1, (inputs_run panel _).1, hsource Operation.config?]
    intro operation hnot
    cases operation <;> simp [Operation.isInput] at hnot <;> rfl
  have hformat : (panel.run operations).format = (panel.run operations').format := by
    rw [(inputs_run panel _).2, (inputs_run panel _).2, hsource Operation.format?]
    intro operation hnot
    cases operation <;> simp [Operation.isInput] at hnot <;> rfl
  refine ⟨hconfig, hformat, ?_⟩
  rw [fresh_run h, fresh_run h, hconfig, hformat, settings_run, settings_run]

/-! The preview. -/

/-- All that some operations ask of the preview. -/
def requests (panel : Panel) : List Operation → List Binder.Operation
  | [] => []
  | operation :: operations =>
    (panel.asked? operation).toList ++ requests (panel.perform operation).state operations

theorem preview_run : (panel.run operations).preview =
    panel.preview.run (panel.requests operations) := by
  induction operations generalizing panel with
  | nil => rfl
  | cons operation operations ih =>
    have hpreview := (panel.leads_perform operation).preview
    refine ih.trans ?_
    rw [hpreview]
    cases hasked : panel.asked? operation <;> simp [requests, hasked, Binder.run]

theorem elementCalls_perform : elementCalls (panel.perform operation).effects =
    (panel.asked? operation).elim [] fun asked =>
      elementCalls (panel.preview.perform asked).effects := by
  have hrefresh : ∀ panel : Panel, elementCalls panel.refresh.effects = [] :=
    fun _ => elementCalls_map_note
  cases operation with
  | bind config target =>
    change elementCalls (_ ++ _) = _
    rw [elementCalls_append, hrefresh, List.nil_append]
    rfl
  | setConfig config =>
    change elementCalls (_ ++ _) = _
    rw [elementCalls_append, hrefresh, List.nil_append]
    rfl
  | setFormat format =>
    change elementCalls (panel.setFormat format).effects = []
    by_cases hformat : format = panel.format
    · rw [setFormat_of_eq hformat]
      rfl
    · rw [setFormat_of_ne hformat, hrefresh]
  | startCopy =>
    rw [startCopy_eq]
    cases panel.exported <;> rfl
  | endCopy number result now => exact elementCalls_map_note
  | _ => rfl

theorem elementCalls_effects : elementCalls (panel.effects operations) =
    elementCalls (panel.preview.effects (panel.requests operations)) := by
  induction operations generalizing panel with
  | nil => rfl
  | cons operation operations ih =>
    have hpreview := (panel.leads_perform operation).preview
    rw [effects, elementCalls_append, ih, elementCalls_perform, hpreview]
    cases hasked : panel.asked? operation <;> simp [requests, hasked, Binder.effects]

/-- What is asked of the preview depends on the panel's config only. -/
theorem requests_congr (h : panel.config = other.config) :
    panel.requests operations = other.requests operations := by
  induction operations generalizing panel other with
  | nil => rfl
  | cons operation operations ih =>
    have hasked : panel.asked? operation = other.asked? operation := by
      cases operation <;> simp [asked?, h]
    have hnext : (panel.perform operation).state.config =
        (other.perform operation).state.config := by
      rw [(panel.leads_perform operation).config, (other.leads_perform operation).config, h]
    rw [requests, requests, hasked, ih hnext]

theorem asked_of_not_shown (panel : Panel) (h : operation.isShown = false) :
    panel.asked? operation = none := by
  cases operation <;> simp [Operation.isShown] at h <;> rfl

theorem requests_filter :
    panel.requests (operations.filter Operation.isShown) = panel.requests operations := by
  induction operations generalizing panel with
  | nil => rfl
  | cons operation operations ih =>
    cases hshown : operation.isShown with
    | true => rw [List.filter_cons_of_pos hshown, requests, requests, ih]
    | false =>
      have hasked := asked_of_not_shown panel hshown
      have hconfig : (panel.perform operation).state.config = panel.config :=
        (panel.leads_perform operation).config.trans (config_of_not_asked hasked)
      rw [List.filter_cons_of_neg (by simp [hshown]), ih, requests, hasked, requests_congr hconfig]
      rfl

/-- The preview and the calls that it makes come from the operations in which it takes part. -/
theorem preview_of_shown (hconfig : panel.config = other.config)
    (hpreview : panel.preview = other.preview)
    (hshown : operations.filter Operation.isShown = operations'.filter Operation.isShown) :
    (panel.run operations).preview = (other.run operations').preview ∧
      elementCalls (panel.effects operations) = elementCalls (other.effects operations') := by
  have hrequests : panel.requests operations = other.requests operations' := by
    rw [← requests_filter, hshown, requests_filter, requests_congr hconfig]
  rw [preview_run, preview_run, elementCalls_effects, elementCalls_effects, hrequests, hpreview]
  exact ⟨rfl, rfl⟩

/-! The copies. -/

/-- What an operation does with the copies. -/
def copyStep? (panel : Panel) : Operation → Option CopyStep
  | .startCopy => some (.start panel.text?.isSome)
  | .endCopy id result now => some (.finish id result now)
  | .dismissFailure => some .dismiss
  | .bind _ _ | .setConfig _ | .attach _ | .detach | .setFormat _ | .replay | .pause | .resume =>
    none

/-- All that some operations do with the copies. -/
def copySteps (panel : Panel) : List Operation → List CopyStep
  | [] => []
  | operation :: operations =>
    (panel.copyStep? operation).toList ++ copySteps (panel.perform operation).state operations

theorem copies_perform : (panel.perform operation).state.copies =
    (panel.copyStep? operation).elim panel.copies panel.copies.advance := by
  cases operation with
  | startCopy =>
    rw [startCopy_eq]
    cases h : panel.exported <;> simp [copyStep?, text?, h, Copies.advance, Copies.start]
  | setFormat format => exact copies_setFormat
  | _ => rfl

theorem copies_run : (panel.run operations).copies =
    (panel.copySteps operations).foldl Copies.advance panel.copies := by
  induction operations generalizing panel with
  | nil => rfl
  | cons operation operations ih =>
    refine ih.trans ?_
    rw [copies_perform]
    cases hstep : panel.copyStep? operation <;> simp [copySteps, hstep]

theorem copySteps_append : panel.copySteps (operations ++ operations') =
    panel.copySteps operations ++ (panel.run operations).copySteps operations' := by
  induction operations generalizing panel with
  | nil => rfl
  | cons operation operations ih =>
    rw [List.cons_append, copySteps, ih, copySteps, List.append_assoc]
    rfl

/-! Controls of the preview between other operations. -/

theorem copySteps_controls (h : ∀ operation ∈ controls, operation.isControl = true) :
    panel.copySteps controls = [] := by
  induction controls generalizing panel with
  | nil => rfl
  | cons operation controls ih =>
    have hnone : panel.copyStep? operation = none := by
      have hcontrol := h operation List.mem_cons_self
      cases operation <;> simp [Operation.isControl] at hcontrol <;> rfl
    rw [copySteps, hnone, ih fun later hl => h later (List.mem_cons_of_mem _ hl)]
    rfl

theorem filter_isInput_controls (h : ∀ operation ∈ controls, operation.isControl = true) :
    controls.filter Operation.isInput = [] := by
  rw [List.filter_eq_nil_iff]
  intro operation hm
  simp [Operation.not_input_of_control (h operation hm)]

/-- The format is switched, or a copy comes to its end. -/
def Operation.IsAside (operation : Operation) : Prop :=
  (∃ format, operation = setFormat format) ∨ ∃ id result now, operation = endCopy id result now

theorem eq_of_parts (hsettings : panel.settings = other.settings)
    (hconfig : panel.config = other.config) (hformat : panel.format = other.format)
    (hexported : panel.exported = other.exported) (hpreview : panel.preview = other.preview)
    (hcopies : panel.copies = other.copies) : panel = other := by
  cases panel
  cases other
  simp_all

theorem swap_controls (hfresh : panel.Fresh)
    (hcontrols : ∀ operation ∈ controls, operation.isControl = true) (haside : operation.IsAside) :
    panel.run (controls ++ [operation]) = panel.run (operation :: controls) ∧
      elementCalls (panel.effects (controls ++ [operation])) =
        elementCalls (panel.effects (operation :: controls)) := by
  have hinputs : (controls ++ [operation]).filter Operation.isInput =
      (operation :: controls).filter Operation.isInput := by
    simp [List.filter_append, List.filter_cons, filter_isInput_controls hcontrols]
  have hnot : operation.isShown = false := by
    rcases haside with ⟨format, rfl⟩ | ⟨id, result, now, rfl⟩ <;> rfl
  have hshown : (controls ++ [operation]).filter Operation.isShown =
      (operation :: controls).filter Operation.isShown := by
    simp [List.filter_append, hnot]
  have hsteps : panel.copySteps (controls ++ [operation]) =
      panel.copySteps (operation :: controls) := by
    have hsame : (panel.run controls).copyStep? operation = panel.copyStep? operation := by
      rcases haside with ⟨format, rfl⟩ | ⟨id, result, now, rfl⟩ <;> rfl
    rw [copySteps_append, copySteps_controls hcontrols, copySteps, copySteps, copySteps, hsame,
      copySteps_controls hcontrols]
    rfl
  obtain ⟨hconfig, hformat, hexported⟩ := source_of_inputs hfresh hinputs
  obtain ⟨hpreview, hcalls⟩ := preview_of_shown (Eq.refl panel.config) rfl hshown
  refine ⟨?_, hcalls⟩
  have hcopies : (panel.run (controls ++ [operation])).copies =
      (panel.run (operation :: controls)).copies := by
    rw [copies_run, copies_run, hsteps]
  have hsettings : (panel.run (controls ++ [operation])).settings =
      (panel.run (operation :: controls)).settings := by
    rw [settings_run, settings_run]
  exact eq_of_parts hsettings hconfig hformat hexported hpreview hcopies

/-- Operations in the middle of others may be replaced by such as come to the same. -/
theorem run_between {first second : List Operation} (before after : List Operation)
    (hrun : (panel.run before).run first = (panel.run before).run second)
    (hcalls : elementCalls ((panel.run before).effects first) =
      elementCalls ((panel.run before).effects second)) :
    panel.run (before ++ first ++ after) = panel.run (before ++ second ++ after) ∧
      elementCalls (panel.effects (before ++ first ++ after)) =
        elementCalls (panel.effects (before ++ second ++ after)) := by
  simp only [run_append, effects_append, elementCalls_append, hrun, hcalls, and_self]

/-- The parts of a panel, over all that may be done with it from its start on. -/
structure Separate (settings : Settings) (config : Config) : Prop where
  /-- Config, format and text come from the configs and formats given. -/
  source : ∀ {operations operations'},
    operations.filter Operation.isInput = operations'.filter Operation.isInput →
    ((create settings config).1.run operations).config =
        ((create settings config).1.run operations').config ∧
      ((create settings config).1.run operations).format =
        ((create settings config).1.run operations').format ∧
      ((create settings config).1.run operations).exported =
        ((create settings config).1.run operations').exported
  /-- The preview and its calls come from the first config and the operations that it takes part
  in, whatever the settings. -/
  preview : ∀ {settings' operations operations'},
    operations.filter Operation.isShown = operations'.filter Operation.isShown →
    ((create settings config).1.run operations).preview =
        ((create settings' config).1.run operations').preview ∧
      elementCalls ((create settings config).1.effects operations) =
        elementCalls ((create settings' config).1.effects operations')
  /-- The copies come from what is done with copies, and from whether there is a text then. -/
  copies : ∀ {settings' config' operations operations'},
    (create settings config).1.copySteps operations =
      (create settings' config').1.copySteps operations' →
    ((create settings config).1.run operations).copies =
      ((create settings' config').1.run operations').copies
  /-- A format or a copy is not seen in the preview. -/
  unseen : ∀ before operation, operation.isShown = false →
    elementCalls (((create settings config).1.run before).perform operation).effects = [] ∧
      (((create settings config).1.run before).perform operation).state.preview =
        ((create settings config).1.run before).preview
  /-- What the preview does is not seen in the text. -/
  steady : ∀ before controls, (∀ operation ∈ controls, operation.isControl = true) →
    ((create settings config).1.run (before ++ controls)).exported =
      ((create settings config).1.run before).exported
  /-- A switch of the format, or the end of a copy, may come before controls or after them. -/
  swapped : ∀ before controls operation after,
    (∀ operation ∈ controls, operation.isControl = true) → operation.IsAside →
    (create settings config).1.run (before ++ controls ++ operation :: after) =
        (create settings config).1.run (before ++ operation :: controls ++ after) ∧
      elementCalls ((create settings config).1.effects (before ++ controls ++ operation :: after)) =
        elementCalls ((create settings config).1.effects (before ++ operation :: controls ++ after))

/-- Text, preview and copies of a panel do not interfere. -/
theorem separate_run (settings : Settings) (config : Config) : Separate settings config := by
  have hfresh : (create settings config).1.Fresh := rfl
  refine ⟨source_of_inputs hfresh, preview_of_shown rfl rfl, ?_, ?_, ?_, ?_⟩
  · intro settings' config' operations operations' hsteps
    rw [copies_run, copies_run, hsteps]
    rfl
  · intro before operation hnot
    have hasked := asked_of_not_shown ((create settings config).1.run before) hnot
    have hpreview := (((create settings config).1.run before).leads_perform operation).preview
    rw [elementCalls_perform, hpreview, hasked]
    exact ⟨rfl, rfl⟩
  · intro before controls hcontrols
    have hnone := filter_isInput_controls hcontrols
    have hinputs : (before ++ controls).filter Operation.isInput =
        before.filter Operation.isInput := by
      rw [List.filter_append, hnone, List.append_nil]
    exact (source_of_inputs hfresh hinputs).2.2
  · intro before controls operation after hcontrols haside
    obtain ⟨hrun, hcalls⟩ := swap_controls (fresh_run hfresh) hcontrols haside
    simpa using run_between before after hrun hcalls

end Panel
end AnimationKit
