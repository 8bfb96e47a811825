import AnimationKit.Proofs.Config.Constraints
import AnimationKit.Proofs.Studio.Refinement

/-!
What is said of a document with a config: by the loader, by the search for its animation, and by a
host's call for an export. The loader does not look at the kind but at the timing, which the search
for an animation never comes to if the kind is unsupported.
-/
namespace AnimationKit

/-- The call by which a host asks for an export. -/
def ExportFormat.call : ExportFormat → String
  | react => "generate_react"
  | css => "generate_css"

/-- The text of the host for a value that is there. -/
def HostValue.Serializes (value : HostValue) (text : String) : Prop :=
  value.isMissing = false ∧ value.stringify = .ok (some text)

/-- The export of a value of the host. -/
def Studio.generate : ExportFormat → HostValue → Answer Source
  | .react => generateReact
  | .css => generateCss

/-- What a call reports of an error: where a field was refused, the name of the call stands in
front of the cause. -/
def AnimationError.report (call : String) : AnimationError → String
  | unsupportedKind name => (unsupportedKind name).message
  | invalidConfig cause => call ++ ": " ++ cause.message

namespace Config

variable {text : String} {config : Config} {cause : ConfigError} {animation : Animation}
  {format : ExportFormat} {value : HostValue}

/-- The export of a config under no settings. -/
def generated (config : Config) : ExportFormat → Except AnimationError Source
  | .react => config.reactSource none
  | .css => config.cssSource

/-- The constraints on the fields that every kind has. -/
structure Timed (config : Config) : Prop where
  duration : config.duration.Within (.Ioi 0)
  delay : config.delay.Within (.Ici 0)

/-- One verdict on a document: what has an animation is loaded, what is refused for a field is
refused for that by the loader, and a kind without animations is none of the loader's business. The
calls for an export report the cause that there is no animation for. -/
structure Agree (text : String) (config : Config) : Prop where
  animated : ∀ animation, Animation.ofConfig config = .ok animation → load text = .ok config
  invalid : ∀ cause, Animation.ofConfig config = .error (.invalidConfig cause) →
    load text = .error cause
  unsupported : ∀ name, Animation.ofConfig config = .error (.unsupportedKind name) →
    load text = .ok config
  reported : ∀ format value, value.Serializes text → Studio.generate format value =
    (config.generated format).mapError (AnimationError.report format.call)

/-- What is said of a document in every case: the loader reports the first fault, whatever the kind,
and a call for an export reports what the loader does, before it looks at the kind. -/
structure Judged (text : String) (config : Config) : Prop where
  loaded : load text = .ok config ↔ ∀ cause, ¬ config.Fault cause
  refused : ∀ cause, load text = .error cause ↔ First config.Fault ConfigError.order cause
  animated : ∀ animation, Animation.ofConfig config = .ok animation → load text = .ok config
  invalid : ∀ cause, Animation.ofConfig config = .error (.invalidConfig cause) ↔
    (∃ family, config.kind = .family family) ∧ load text = .error cause
  unsupported : ∀ name, Animation.ofConfig config = .error (.unsupportedKind name) ↔
    config.kind = .unsupported name
  reported : ∀ format value, value.Serializes text → Studio.generate format value =
    match load text with
    | .ok _ => (config.generated format).mapError AnimationError.message
    | .error cause => .error (format.call ++ ": " ++ cause.message)

/-! Loading. -/

theorem load_of_ofJson (h : ofJson text = .ok config) :
    load text = config.validate.map fun _ => config := by
  rw [load, h]
  cases hvalid : config.validate <;> simp [bind, Except.bind, Except.map, hvalid, pure, Except.pure]

theorem load_ok_iff (h : ofJson text = .ok config) :
    load text = .ok config ↔ ∀ cause, ¬ config.Fault cause := by
  rw [← validate_ok_iff, load_of_ofJson h]
  cases config.validate <;> simp [Except.map]

theorem load_error_iff (h : ofJson text = .ok config) :
    load text = .error cause ↔ First config.Fault ConfigError.order cause := by
  rw [← validate_error_iff, load_of_ofJson h]
  cases config.validate <;> simp [Except.map]

/-- Without a family, there is nothing but the timing that could be refused. -/
theorem timed_iff {name : String} (hkind : config.kind = .unsupported name) :
    config.Timed ↔ ∀ cause, ¬ config.Fault cause := by
  constructor
  · rintro ⟨hduration, hdelay⟩ cause hfault
    cases hfault with
    | duration h => exact h hduration
    | delay h => exact h hdelay
    | field hfamily _ => simp [hkind] at hfamily
  · intro hnone
    constructor
    · by_contra h
      exact hnone _ (.duration h)
    · by_contra h
      exact hnone _ (.delay h)

/-! Exports for a host. -/

/-- An export is of an animation, so there is none for the reason that there is no animation for. -/
theorem generated_error {error : AnimationError} (h : Animation.ofConfig config = .error error) :
    config.generated format = .error error := by
  cases format <;> simp [generated, reactSource, cssSource, h, Except.map]

theorem generated_ok (h : Animation.ofConfig config = .ok animation) :
    config.generated format = .ok (animation.source none format) := by
  cases format <;> simp [generated, reactSource, cssSource, h, Except.map, Animation.source]

theorem generate_of_load (h : load text = .ok config) (hvalue : value.Serializes text) :
    Studio.generate format value =
      (config.generated format).mapError AnimationError.message := by
  obtain ⟨hmissing, htext⟩ := hvalue
  have hread (call : String) : Studio.readConfig call value = .ok config :=
    (Studio.readConfig_ok_iff call).mpr ⟨hmissing, text, htext, h⟩
  cases format with
  | react =>
    rw [Studio.generate, Studio.generateReact, hread]
    dsimp only [generated, bind, Except.bind]
    cases config.reactSource none <;> rfl
  | css =>
    rw [Studio.generate, Studio.generateCss, hread]
    dsimp only [generated, bind, Except.bind]
    cases config.cssSource <;> rfl

theorem generate_of_error (h : load text = .error cause) (hvalue : value.Serializes text) :
    Studio.generate format value = .error (format.call ++ ": " ++ cause.message) := by
  obtain ⟨hmissing, htext⟩ := hvalue
  have hread (call : String) :
      Studio.readConfig call value = .error (call ++ ": " ++ cause.message) := by
    simp [Studio.readConfig, hmissing, htext, h]
  cases format with
  | react =>
    rw [Studio.generate, Studio.generateReact, hread]
    rfl
  | css =>
    rw [Studio.generate, Studio.generateCss, hread]
    rfl

theorem judged_of_ofJson (h : ofJson text = .ok config) : Judged text config where
  loaded := load_ok_iff h
  refused _ := load_error_iff h
  animated animation hanimation := by
    rw [load_of_ofJson h, validate_of_ok hanimation]
    rfl
  invalid cause := by
    rw [invalidConfig_iff, load_error_iff h, validate_error_iff]
  unsupported _ := unsupportedKind_iff
  reported format value hvalue := by
    cases hload : load text with
    | ok loaded =>
      obtain rfl : loaded = config := Except.ok.inj ((ofJson_of_load hload).1.symm.trans h)
      exact generate_of_load hload hvalue
    | error cause => exact generate_of_error hload hvalue

/-- There is one verdict exactly if the loader has nothing to say of a kind without animations. -/
theorem agree_iff (h : ofJson text = .ok config) :
    Agree text config ↔ ∀ name, config.kind = .unsupported name → config.Timed := by
  have hjudged := judged_of_ofJson h
  constructor
  · intro hagree name hkind
    rw [timed_iff hkind, ← hjudged.loaded]
    exact hagree.unsupported name ((hjudged.unsupported name).mpr hkind)
  · intro htimed
    have hunsupported (name : String)
        (hnone : Animation.ofConfig config = .error (.unsupportedKind name)) :
        load text = .ok config := by
      have hkind := (hjudged.unsupported name).mp hnone
      rw [hjudged.loaded, ← timed_iff hkind]
      exact htimed name hkind
    refine ⟨hjudged.animated, fun cause hnone => ((hjudged.invalid cause).mp hnone).2,
      hunsupported, fun format value hvalue => ?_⟩
    cases hanimation : Animation.ofConfig config with
    | ok animation =>
      rw [generate_of_load (hjudged.animated _ hanimation) hvalue, generated_ok hanimation]
      rfl
    | error error =>
      cases error with
      | unsupportedKind name =>
        rw [generate_of_load (hunsupported name hanimation) hvalue, generated_error hanimation]
        rfl
      | invalidConfig cause =>
        rw [generate_of_error ((hjudged.invalid cause).mp hanimation).2 hvalue,
          generated_error hanimation]
        rfl

/-- Of a document with a supported kind, loader, animation and exports say the same; of one with an
unsupported kind they do so exactly if its timing is in range. -/
theorem verdicts_on_document (h : ofJson text = .ok config) :
    Judged text config ∧
      (Agree text config ↔ ∀ name, config.kind = .unsupported name → config.Timed) :=
  ⟨judged_of_ofJson h, agree_iff h⟩

/-- A kind that no family has, for a second. -/
def spin : Config := { kind := .unsupported "spin", duration := .ofNat 1 }

/-- A kind that no family has, for no time at all. -/
def spinOfNoTime : Config := { spin with duration := .zero }

/-- What the host gives for those configs. -/
def spinDocument : String :=
  "\x7b\"type\":\"spin\",\"duration\":1,\"delay\":0,\"easing\":\"ease\"\x7d"

def spinOfNoTimeDocument : String :=
  "\x7b\"type\":\"spin\",\"duration\":0,\"delay\":0,\"easing\":\"ease\"\x7d"

theorem spin_closed :
    (ofJson spinDocument = .ok spin ∧ spin.validate = .ok ()) ∧
      ofJson spinOfNoTimeDocument = .ok spinOfNoTime ∧
      spinOfNoTime.validate = .error (.nonPositiveDuration .zero) := by
  decide +kernel

/-- Of the first document all say the same. The second one is refused for its duration. -/
theorem verdicts_on_document_spin :
    (ofJson spinDocument = .ok spin ∧ Agree spinDocument spin) ∧
      ofJson spinOfNoTimeDocument = .ok spinOfNoTime ∧ ¬ Agree spinOfNoTimeDocument spinOfNoTime ∧
      First spinOfNoTime.Fault ConfigError.order (.nonPositiveDuration .zero) := by
  obtain ⟨⟨hread, hvalid⟩, hread', hinvalid⟩ := spin_closed
  have hfirst := validate_error_iff.mp hinvalid
  refine ⟨⟨hread, (verdicts_on_document hread).2.mpr fun name hkind => ?_⟩, hread',
    fun hagree => ?_, hfirst⟩
  · rw [timed_iff hkind, ← validate_ok_iff]
    exact hvalid
  · have htimed := (verdicts_on_document hread').2.mp hagree "spin" rfl
    exact (timed_iff rfl).mp htimed _ hfirst.1

/-- A kind without animations is the loader's business if its duration is no duration, and the host
learns of the duration in place of the kind. -/
theorem verdicts_differ_spinOfNoTime :
    ofJson spinOfNoTimeDocument = .ok spinOfNoTime ∧
      Animation.ofConfig spinOfNoTime = .error (.unsupportedKind "spin") ∧
      load spinOfNoTimeDocument = .error (.nonPositiveDuration .zero) ∧
      Studio.generateCss (.object spinOfNoTimeDocument) =
        .error "generate_css: Duration must be > 0 seconds, got 0" ∧
      ¬ Agree spinOfNoTimeDocument spinOfNoTime := by
  obtain ⟨-, hread, hinvalid⟩ := spin_closed
  have hjudged := judged_of_ofJson hread
  have hload := (hjudged.refused _).mpr (validate_error_iff.mp hinvalid)
  have hunsupported := (hjudged.unsupported "spin").mpr rfl
  refine ⟨hread, hunsupported, hload, ?_, fun hagree => ?_⟩
  · have hreported := hjudged.reported .css (.object spinOfNoTimeDocument) ⟨rfl, rfl⟩
    rw [hload] at hreported
    exact hreported
  · have hloaded := hagree.unsupported "spin" hunsupported
    rw [hload] at hloaded
    cases hloaded

end Config
end AnimationKit
