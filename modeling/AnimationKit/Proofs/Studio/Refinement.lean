import AnimationKit.Proofs.Documents.Saving
import AnimationKit.Proofs.Export.Copies
import AnimationKit.Studio.Operation

/-!
Studios and their panels. All that a studio does is done by operations of its panel, with configs
that were read and checked; a call that fails asks for none.
-/
namespace AnimationKit

/-! Panels that are given checked configs only. -/

namespace Panel

variable {panel : Panel} {operation : Operation} {operations : List Operation}

/-- All effects of some operations. -/
def effects (panel : Panel) : List Operation → List Effect
  | [] => []
  | operation :: operations =>
    (panel.perform operation).effects ++ effects (panel.perform operation).state operations

theorem run_append {rest : List Operation} :
    panel.run (operations ++ rest) = (panel.run operations).run rest := by
  simp [run]

theorem effects_append {rest : List Operation} :
    panel.effects (operations ++ rest) =
      panel.effects operations ++ (panel.run operations).effects rest := by
  induction operations generalizing panel with
  | nil => rfl
  | cons operation operations ih =>
    rw [List.cons_append, effects, ih, effects, List.append_assoc]
    rfl

theorem startCopy_of_ok {text : String} (h : panel.exported = .ok text) :
    panel.perform .startCopy =
      ⟨{ panel with copies := (panel.copies.start text).1 },
        .request (some ⟨panel.copies.nextId, text⟩), []⟩ := by
  simp [perform, startCopy, text?, h, Outcome.map, Copies.start]

/-- The config was checked, and text and preview are those of it. -/
structure Sound (panel : Panel) : Prop where
  fresh : panel.Fresh
  situation : panel.preview.Situation (some panel.config)
  valid : panel.config.validate = .ok ()

/-- The operation brings no config that was not checked. -/
def Operation.Checked (operation : Operation) : Prop :=
  ∀ config, operation.config? = some config → config.validate = .ok ()

theorem sound_create (settings : Settings) {config : Config} (h : config.validate = .ok ()) :
    (create settings config).1.Sound :=
  ⟨rfl, .unbound rfl rfl rfl, h⟩

theorem sound_perform (h : panel.Sound) (hchecked : operation.Checked) :
    (panel.perform operation).state.Sound := by
  have hleads := panel.leads_perform operation
  refine ⟨hleads.fresh h.fresh, ?_, ?_⟩
  · rw [hleads.preview, hleads.config]
    cases hasked : panel.asked? operation with
    | none =>
      rw [config_of_not_asked hasked]
      exact h.situation
    | some asked =>
      rw [← config_asked hasked]
      exact Binder.situation_perform asked h.situation
  · rw [hleads.config]
    cases hconfig : operation.config? with
    | none => exact h.valid
    | some config => exact hchecked config hconfig

theorem sound_run (h : panel.Sound) (hchecked : ∀ operation ∈ operations, operation.Checked) :
    (panel.run operations).Sound := by
  induction operations generalizing panel with
  | nil => exact h
  | cons operation operations ih =>
    have hstep := sound_perform h (hchecked operation List.mem_cons_self)
    exact ih hstep fun later hl => hchecked later (List.mem_cons_of_mem _ hl)

theorem ofConfig_error_iff {config : Config} {cause : AnimationError}
    (hvalid : config.validate = .ok ()) : Animation.ofConfig config = .error cause ↔
      ∃ name, config.kind = .unsupported name ∧ cause = .unsupportedKind name := by
  cases cause with
  | unsupportedKind name => simp [Config.unsupportedKind_iff]
  | invalidConfig cause => simp [Config.invalidConfig_iff, hvalid]

/-- The only reason why there is no text. -/
theorem exported_error_iff (h : panel.Sound) {cause : AnimationError} :
    panel.exported = .error cause ↔
      ∃ name, panel.config.kind = .unsupported name ∧ cause = .unsupportedKind name := by
  rw [h.fresh, ← ofConfig_error_iff h.valid, exportOf, Config.source]
  cases Animation.ofConfig panel.config <;> simp [Except.map]

theorem bound_iff (h : panel.Sound) (htarget : panel.preview.target ≠ none) :
    panel.preview.state = .bound ↔ ∃ name, panel.config.kind = .unsupported name := by
  cases h.situation with
  | unbound ht _ _ => exact (htarget ht).elim
  | bound _ ha hc hs _ =>
    rw [← Option.some.inj ha, ofConfig_error_iff h.valid] at hc
    obtain ⟨name, hname, -⟩ := hc
    exact ⟨fun _ => ⟨name, hname⟩, fun _ => hs⟩
  | animating _ ha hc hs _ _ =>
    rw [← Option.some.inj ha] at hc
    constructor
    · intro hbound
      rcases hs with hs | ⟨hs, -⟩ <;> rw [hs] at hbound <;> cases hbound
    · rintro ⟨name, hname⟩
      obtain ⟨family, hfamily⟩ := Animation.kind_of_ok hc
      rw [hname] at hfamily
      cases hfamily

end Panel

/-- The value has JSON text, and that text is a config that passes every check. -/
def HostValue.Denotes (value : HostValue) (config : Config) : Prop :=
  value.isMissing = false ∧
    ∃ text, value.stringify = .ok (some text) ∧ Config.load text = .ok config

/-- How a copy went, if its writer tells within the call. -/
def Writer.result? : Writer → Option CopyResult
  | throws thrown => some (.failed thrown.failureMessage)
  | answers => none

namespace Studio

variable {studio start : Studio} {now : Binary64} {operation : Operation} {value : HostValue}
  {config : Config} {writer : Writer} {result : CopyResult} {text message : String}

structure Step where
  time : Binary64
  operation : Operation

variable {step : Step} {steps : List Step}

def run (studio : Studio) (steps : List Step) : Studio :=
  steps.foldl (fun studio step => (studio.perform step.time step.operation).state) studio

/-! Reading configs. -/

theorem readConfig_ok_iff (call : String) :
    readConfig call value = .ok config ↔ value.Denotes config := by
  unfold readConfig HostValue.Denotes
  cases hmissing : value.isMissing with
  | true => simp
  | false =>
    cases value.stringify with
    | error thrown => simp
    | ok text? =>
      cases text? with
      | none => simp
      | some text => cases hload : Config.load text <;> simp [hload]

theorem validate_of_denotes (h : value.Denotes config) : config.validate = .ok () := by
  obtain ⟨-, text, -, hload⟩ := h
  exact (Config.ofJson_of_load hload).2

/-! Copies. -/

theorem copy_of_error {cause : AnimationError} (h : studio.panel.exported = .error cause) :
    studio.copy writer now = studio.refuse "copy: no generated text" := by
  simp [copy, onPanel, Panel.startCopy, Panel.text?, h]

/-- A copy whose writer tells within the call how it went. -/
theorem copy_of_some (h : studio.panel.exported = .ok text)
    (hresult : writer.result? = some result) :
    studio.copy writer now =
      ⟨{ studio with panel := { studio.panel with
          copies := ⟨studio.panel.copies.nextId + 1, none, some (result.feedback, now)⟩ } },
        .ok text, result.notes.map .note⟩ := by
  cases writer <;> cases hresult
  simp [copy, onPanel, Panel.startCopy, Panel.text?, h, endCopy, Panel.endCopy, Copies.start,
    Copies.finish]

/-- A copy whose writer answers with a promise. -/
theorem copy_of_none (h : studio.panel.exported = .ok text) (hresult : writer.result? = none) :
    studio.copy writer now =
      ⟨⟨{ studio.panel with copies := (studio.panel.copies.start text).1 },
          studio.promises ++ [some studio.panel.copies.nextId]⟩, .ok text, []⟩ := by
  cases writer <;> cases hresult
  simp [copy, onPanel, Panel.startCopy, Panel.text?, h, Copies.start]

/-- A writer receives the text of the panel. -/
theorem copy_text (h : studio.panel.exported = .ok text) (writer : Writer) (now : Binary64) :
    (studio.copy writer now).result = .ok text := by
  cases hresult : writer.result? with
  | none => rw [copy_of_none h hresult]
  | some result => rw [copy_of_some h hresult]

/-! What a studio asks of its panel. -/

/-- The operations of the panel that an operation comes to. -/
def requests (studio : Studio) (now : Binary64) : Operation → List Panel.Operation
  | .bind value target =>
    (readConfig "bind" value).toOption.toList.map fun config => .bind config target
  | .setConfig value => (readConfig "set_config" value).toOption.toList.map .setConfig
  | .setFormat name => (ExportFormat.ofText name).toOption.toList.map .setFormat
  | .replay => [.replay]
  | .pause => [.pause]
  | .resume => [.resume]
  | .unbind => [.detach]
  | .dismissFailure => [.dismissFailure]
  | .copy writer =>
    match studio.panel.text? with
    | none => []
    | some _ =>
      .startCopy ::
        writer.result?.toList.map fun result => .endCopy studio.panel.copies.nextId result now
  | .settle promise settlement =>
    match studio.promises[promise]? with
    | some (some id) => [.endCopy id settlement.copyResult now]
    | _ => []

/-- Everything that a studio asks of its panel in some steps. -/
def requestsOf (studio : Studio) : List Step → List Panel.Operation
  | [] => []
  | step :: steps =>
    studio.requests step.time step.operation ++
      requestsOf (studio.perform step.time step.operation).state steps

/-- All effects of some steps. -/
def effects (studio : Studio) : List Step → List Effect
  | [] => []
  | step :: steps =>
    (studio.perform step.time step.operation).effects ++
      effects (studio.perform step.time step.operation).state steps

/-- An outcome is what the panel makes of some operations. -/
structure Follows {α : Type} (studio : Studio) (outcome : Outcome Studio α)
    (requests : List Panel.Operation) : Prop where
  panel : outcome.state.panel = studio.panel.run requests
  effects : outcome.effects = studio.panel.effects requests

theorem follows_single {α : Type} {outcome : Outcome Studio α} {request : Panel.Operation}
    (hpanel : outcome.state.panel = (studio.panel.perform request).state)
    (heffects : outcome.effects = (studio.panel.perform request).effects) :
    studio.Follows outcome [request] :=
  ⟨hpanel, by rw [Panel.effects, Panel.effects, List.append_nil, heffects]⟩

theorem follows_copy (studio : Studio) (writer : Writer) (now : Binary64) :
    studio.Follows (studio.copy writer now) (studio.requests now (.copy writer)) := by
  simp only [requests, Panel.text?]
  cases hexported : studio.panel.exported with
  | error cause =>
    rw [copy_of_error hexported]
    exact ⟨rfl, rfl⟩
  | ok text =>
    cases hresult : writer.result? with
    | none =>
      rw [copy_of_none hexported hresult]
      have hstart := Panel.startCopy_of_ok hexported
      exact follows_single (by rw [hstart]) (by rw [hstart])
    | some result =>
      rw [copy_of_some hexported hresult]
      constructor <;>
        simp [Panel.run, Panel.effects, Panel.startCopy_of_ok hexported, Panel.endCopy_of_pending,
          Copies.start]

theorem follows_settle (studio : Studio) (promise : Nat) (settlement : Settlement)
    (now : Binary64) :
    studio.Follows (studio.settle promise settlement now)
      (studio.requests now (.settle promise settlement)) := by
  simp only [settle, requests]
  cases hpromise : studio.promises[promise]? with
  | none => exact ⟨rfl, rfl⟩
  | some id? =>
    cases id? with
    | none => exact ⟨rfl, rfl⟩
    | some id => exact follows_single rfl rfl

theorem follows_map {α β : Type} {f : α → β} {outcome : Outcome Studio α}
    {requests : List Panel.Operation} (h : studio.Follows outcome requests) :
    studio.Follows (outcome.map f) requests := ⟨h.panel, h.effects⟩

theorem follows_perform (studio : Studio) (now : Binary64) (operation : Operation) :
    studio.Follows (studio.perform now operation) (studio.requests now operation) := by
  cases operation with
  | bind value target =>
    apply follows_map
    simp only [bind, requests]
    cases readConfig "bind" value with
    | ok config => exact follows_single rfl rfl
    | error message => exact ⟨rfl, rfl⟩
  | setConfig value =>
    apply follows_map
    simp only [setConfig, requests]
    cases readConfig "set_config" value with
    | ok config => exact follows_single rfl rfl
    | error message => exact ⟨rfl, rfl⟩
  | setFormat name =>
    apply follows_map
    simp only [setFormat, requests]
    cases ExportFormat.ofText name with
    | ok format => exact follows_single rfl rfl
    | error failure => exact ⟨rfl, rfl⟩
  | copy writer => exact follows_map (follows_copy studio writer now)
  | settle promise settlement =>
    exact follows_map (f := fun _ => Reply.nothing) (follows_settle studio promise settlement now)
  | _ => exact follows_single rfl rfl

theorem follows_run (studio : Studio) (steps : List Step) :
    (studio.run steps).panel = studio.panel.run (studio.requestsOf steps) ∧
      studio.effects steps = studio.panel.effects (studio.requestsOf steps) := by
  induction steps generalizing studio with
  | nil => exact ⟨rfl, rfl⟩
  | cons step steps ih =>
    have hstep := follows_perform studio step.time step.operation
    -- What follows runs from the panel that the requests of this step lead to.
    obtain ⟨hpanel, heffects⟩ := ih (studio.perform step.time step.operation).state
    rw [hstep.panel] at hpanel heffects
    rw [requestsOf, Panel.run_append, Panel.effects_append, effects, hstep.effects, heffects]
    exact ⟨hpanel, rfl⟩

/-! Only checked configs come to the panel. -/

theorem checked_of_read {call : String} {make : Config → Panel.Operation}
    (hmake : ∀ config, (make config).config? = some config) {request : Panel.Operation}
    (h : request ∈ (readConfig call value).toOption.toList.map make) : request.Checked := by
  cases hread : readConfig call value with
  | error message => simp [hread, Except.toOption] at h
  | ok config =>
    obtain rfl : request = make config := by simpa [hread, Except.toOption] using h
    intro other hother
    obtain rfl := Option.some.inj ((hmake config).symm.trans hother)
    exact validate_of_denotes ((readConfig_ok_iff call).mp hread)

theorem checked_requests {request : Panel.Operation} (h : request ∈ studio.requests now operation) :
    request.Checked := by
  have hunread (hnone : request.config? = none) : request.Checked := by
    intro config hconfig
    rw [hnone] at hconfig
    cases hconfig
  cases operation with
  | bind value target => exact checked_of_read (fun _ => rfl) h
  | setConfig value => exact checked_of_read (fun _ => rfl) h
  | setFormat name =>
    obtain ⟨format, -, rfl⟩ := List.mem_map.mp h
    exact hunread rfl
  | copy writer =>
    simp only [requests] at h
    split at h
    · exact (List.not_mem_nil h).elim
    · rcases List.mem_cons.mp h with rfl | h
      · exact hunread rfl
      · obtain ⟨result, -, rfl⟩ := List.mem_map.mp h
        exact hunread rfl
  | settle promise settlement =>
    simp only [requests] at h
    split at h
    · obtain rfl := List.mem_singleton.mp h
      exact hunread rfl
    · exact (List.not_mem_nil h).elim
  | _ =>
    obtain rfl := List.mem_singleton.mp h
    exact hunread rfl

theorem checked_requestsOf (studio : Studio) (steps : List Step) :
    ∀ request ∈ studio.requestsOf steps, request.Checked := by
  induction steps generalizing studio with
  | nil => exact fun request h => (List.not_mem_nil h).elim
  | cons step steps ih =>
    intro request h
    rcases List.mem_append.mp h with h | h
    · exact checked_requests h
    · exact ih _ request h

theorem create_of_missing (settings : Settings) (h : value.isMissing = true) :
    create settings value = .ok (⟨(Panel.create settings Config.default).1, []⟩,
      (Panel.create settings Config.default).2) := by
  simp only [create, h, if_true]
  generalize Config.default = config
  rfl

/-- A new studio has a new panel with a checked config, and no promises. -/
theorem create_ok {settings : Settings} {notes : List Note}
    (h : create settings value = .ok (start, notes)) :
    ∃ config, config.validate = .ok () ∧ start = ⟨(Panel.create settings config).1, []⟩ := by
  cases hmissing : value.isMissing with
  | true =>
    rw [create_of_missing settings hmissing] at h
    exact ⟨_, Config.validate_default, (congrArg Prod.fst (Except.ok.inj h)).symm⟩
  | false =>
    simp only [create, hmissing, Bool.false_eq_true, if_false] at h
    cases hread : readConfig "new" value with
    | error message =>
      rw [hread] at h
      cases h
    | ok config =>
      rw [hread] at h
      have hvalid := validate_of_denotes ((readConfig_ok_iff "new").mp hread)
      exact ⟨config, hvalid, (congrArg Prod.fst (Except.ok.inj h)).symm⟩

/-! Calls with an argument. -/

/-- A call with an argument does what the panel does with what the argument stands for; it is
refused if the argument stands for nothing. -/
structure Obeys {α β : Type} (studio : Studio) (outcome : Outcome Studio (Answer β))
    (denotes : α → Prop) (operation : α → Outcome Panel β) : Prop where
  accepted : ∀ argument, denotes argument → outcome = studio.accept (operation argument)
  refused : (∀ argument, ¬ denotes argument) → ∃ message, outcome = studio.refuse message

namespace Obeys

variable {α β ε : Type} {outcome : Outcome Studio (Answer β)} {denotes : α → Prop}
  {operation : α → Outcome Panel β}

theorem of_read {read : Except ε α} (hread : ∀ argument, read = .ok argument ↔ denotes argument)
    (hok : ∀ argument, read = .ok argument → outcome = studio.accept (operation argument))
    (herror : ∀ failure, read = .error failure → ∃ message, outcome = studio.refuse message) :
    studio.Obeys outcome denotes operation := by
  refine ⟨fun argument hdenotes => hok argument ((hread argument).mpr hdenotes), fun hnone => ?_⟩
  cases hr : read with
  | ok argument => exact (hnone argument ((hread argument).mp hr)).elim
  | error failure => exact herror failure hr

theorem of_error (h : studio.Obeys outcome denotes operation)
    (herror : outcome.result = .error message) : outcome = studio.refuse message := by
  by_cases hdenotes : ∃ argument, denotes argument
  · obtain ⟨argument, hargument⟩ := hdenotes
    rw [h.accepted argument hargument] at herror
    cases herror
  · obtain ⟨text, hrefused⟩ := h.refused (not_exists.mp hdenotes)
    rw [hrefused] at herror ⊢
    rw [← Except.error.inj herror]

end Obeys

theorem obeys_bind (studio : Studio) (value : HostValue) (target : Option ElementId) :
    studio.Obeys (studio.bind value target) value.Denotes
      fun config => studio.panel.bind config target :=
  .of_read (fun _ => readConfig_ok_iff "bind") (fun _ h => by rw [bind, h])
    fun message h => ⟨message, by rw [bind, h]⟩

theorem obeys_setConfig (studio : Studio) (value : HostValue) :
    studio.Obeys (studio.setConfig value) value.Denotes studio.panel.setConfig :=
  .of_read (fun _ => readConfig_ok_iff "set_config") (fun _ h => by rw [setConfig, h])
    fun message h => ⟨message, by rw [setConfig, h]⟩

theorem obeys_setFormat (studio : Studio) (name : String) :
    studio.Obeys (studio.setFormat name) (fun format => ExportFormat.ofText name = .ok format)
      studio.panel.setFormat :=
  .of_read (fun _ => Iff.rfl) (fun _ h => by rw [setFormat, h])
    fun failure h => ⟨"set_backend: " ++ failure.message, by rw [setFormat, h]⟩

theorem copy_of_failed {writer : Writer} (h : (studio.copy writer now).result = .error message) :
    studio.copy writer now = studio.refuse message := by
  cases hexported : studio.panel.exported with
  | ok text =>
    rw [copy_text hexported] at h
    cases h
  | error cause =>
    rw [copy_of_error hexported] at h ⊢
    rw [← Except.error.inj h]

/-- What a call does when its reply is a failure. -/
theorem map_of_failed {α : Type} {outcome : Outcome Studio (Answer α)} {reply : α → Reply}
    (hreply : ∀ value, reply value ≠ .failed message)
    (hrefused : outcome.result = .error message → outcome = studio.refuse message)
    (h : (outcome.map (Reply.ofAnswer reply)).result = .failed message) :
    outcome.map (Reply.ofAnswer reply) = ⟨studio, .failed message, []⟩ := by
  have hresult : Reply.ofAnswer reply outcome.result = .failed message := h
  have herror : outcome.result = .error message := by
    cases hanswer : outcome.result with
    | ok value =>
      rw [hanswer] at hresult
      exact (hreply value hresult).elim
    | error other =>
      rw [hanswer] at hresult
      rw [Reply.failed.inj hresult]
  rw [hrefused herror]
  rfl

/-- A call that fails leaves everything as it was. -/
theorem perform_of_failed (h : (studio.perform now operation).result = .failed message) :
    studio.perform now operation = ⟨studio, .failed message, []⟩ := by
  cases operation with
  | bind value target => exact map_of_failed (by simp) (obeys_bind studio value target).of_error h
  | setConfig value => exact map_of_failed (by simp) (obeys_setConfig studio value).of_error h
  | setFormat name => exact map_of_failed (by simp) (obeys_setFormat studio name).of_error h
  | copy writer => exact map_of_failed (by simp) copy_of_failed h
  | _ => cases h

/-! What a host can rely on. -/

theorem exportedText_error_iff (h : studio.panel.Sound) : studio.exportedText = .error message ↔
    ∃ name, studio.panel.config.kind = .unsupported name ∧
      message = (AnimationError.unsupportedKind name).message := by
  have htext : studio.exportedText = .error message ↔
      ∃ cause, studio.panel.exported = .error cause ∧ cause.message = message := by
    unfold exportedText
    cases studio.panel.exported <;> simp
  rw [htext]
  constructor
  · rintro ⟨cause, hcause, rfl⟩
    obtain ⟨name, hname, rfl⟩ := (Panel.exported_error_iff h).mp hcause
    exact ⟨name, hname, rfl⟩
  · rintro ⟨name, hname, rfl⟩
    exact ⟨_, (Panel.exported_error_iff h).mpr ⟨name, hname, rfl⟩, rfl⟩

theorem copy_error_iff (h : studio.panel.Sound) (writer : Writer) (now : Binary64) :
    (∃ message, (studio.copy writer now).result = .error message) ↔
      ∃ name, studio.panel.config.kind = .unsupported name := by
  constructor
  · rintro ⟨message, hcopy⟩
    cases hexported : studio.panel.exported with
    | error cause =>
      obtain ⟨name, hname, -⟩ := (Panel.exported_error_iff h).mp hexported
      exact ⟨name, hname⟩
    | ok text =>
      rw [copy_text hexported] at hcopy
      cases hcopy
  · rintro ⟨name, hname⟩
    have hexported := (Panel.exported_error_iff h).mpr ⟨name, hname, rfl⟩
    rw [copy_of_error hexported]
    exact ⟨_, rfl⟩

/-- What holds of a studio at every moment. -/
structure Reliable (studio : Studio) : Prop where
  /-- A call that fails has no effect, neither on the studio nor on an element. -/
  failed : ∀ now operation message,
    (studio.perform now operation).result = .failed message →
      studio.perform now operation = ⟨studio, .failed message, []⟩
  bind : ∀ value target, studio.Obeys (studio.bind value target) value.Denotes
    fun config => studio.panel.bind config target
  setConfig : ∀ value, studio.Obeys (studio.setConfig value) value.Denotes studio.panel.setConfig
  setFormat : ∀ name, studio.Obeys (studio.setFormat name)
    (fun format => ExportFormat.ofText name = .ok format) studio.panel.setFormat
  /-- Only a kind that is not supported has no text, and nothing to copy. -/
  text_error_iff : ∀ message, studio.exportedText = .error message ↔
    ∃ name, studio.panel.config.kind = .unsupported name ∧
      message = (AnimationError.unsupportedKind name).message
  copy_error_iff : ∀ writer now, (∃ message, (studio.copy writer now).result = .error message) ↔
    ∃ name, studio.panel.config.kind = .unsupported name
  bound_iff : studio.panel.preview.target ≠ none →
    (studio.panel.preview.state = .bound ↔ ∃ name, studio.panel.config.kind = .unsupported name)

theorem reliable_of_sound (h : studio.panel.Sound) : studio.Reliable :=
  ⟨fun _ _ _ => perform_of_failed, obeys_bind studio, obeys_setConfig studio,
    obeys_setFormat studio, fun _ => exportedText_error_iff h, copy_error_iff h, Panel.bound_iff h⟩

/-- Some steps of a studio are steps of its panel, with checked configs only, and the studio can be
relied on after them. -/
structure Refines (start : Studio) (steps : List Step) : Prop where
  panel : (start.run steps).panel = start.panel.run (start.requestsOf steps)
  effects : start.effects steps = start.panel.effects (start.requestsOf steps)
  checked : ∀ request ∈ start.requestsOf steps, request.Checked
  reliable : (start.run steps).Reliable

theorem refines_run {settings : Settings} {notes : List Note}
    (h : create settings value = .ok (start, notes)) (steps : List Step) :
    start.Refines steps := by
  obtain ⟨config, hvalid, rfl⟩ := create_ok h
  obtain ⟨hpanel, heffects⟩ := follows_run ⟨(Panel.create settings config).1, []⟩ steps
  have hchecked := checked_requestsOf ⟨(Panel.create settings config).1, []⟩ steps
  have hsound := Panel.sound_run (Panel.sound_create settings hvalid) hchecked
  refine ⟨hpanel, heffects, hchecked, reliable_of_sound ?_⟩
  rw [hpanel]
  exact hsound

/-- A config of a kind that is not supported. -/
def spinDocument : String :=
  "\x7b\"type\": \"spin\", \"duration\": 1, \"delay\": 0, \"easing\": \"ease\"\x7d"

/-- Calls of which most fail: without a config, without a text to copy, and with an unknown format.
-/
def stumblingSteps : List Step :=
  [⟨.ofNat 1, .bind .null (some 0)⟩, ⟨.ofNat 2, .bind (.object spinDocument) (some 0)⟩,
    ⟨.ofNat 3, .copy .answers⟩, ⟨.ofNat 4, .setFormat "vue"⟩, ⟨.ofNat 5, .setConfig .function⟩]

theorem refines_run_stumblingSteps :
    ∃ start notes, create {} .undefined = .ok (start, notes) ∧ start.Refines stumblingSteps := by
  have hcreate := create_of_missing {} (rfl : HostValue.isMissing .undefined = true)
  exact ⟨_, _, hcreate, refines_run hcreate stumblingSteps⟩

end Studio
end AnimationKit
