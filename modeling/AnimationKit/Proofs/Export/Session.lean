import AnimationKit.Export.Operation
import AnimationKit.Proofs.Preview.Run

/-!
Sessions of an export panel on a page. Config, exported text and preview are kept apart and renewed
by different operations; after any of them they are those of the newest config and format.
-/
namespace AnimationKit

namespace Panel

variable {panel : Panel} {operation : Operation} {id : ElementId}

/-- What an operation asks of the preview. -/
def asked? (panel : Panel) : Operation → Option Binder.Operation
  | .bind config target => some (.bind config target)
  | .setConfig config => some (.rebind config)
  | .attach target => some (.bind panel.config (some target))
  | .detach => some .unbind
  | .replay => some .replay
  | .pause => some .pause
  | .resume => some .resume
  | .setFormat _ | .startCopy | .endCopy _ _ _ | .dismissFailure => none

def Operation.config? : Operation → Option Config
  | .bind config _ | .setConfig config => some config
  | _ => none

def Operation.format? : Operation → Option ExportFormat
  | .setFormat format => some format
  | _ => none

@[simp] theorem callsTo_refresh : callsTo id panel.refresh.effects = [] := callsTo_map_note

theorem setFormat_of_eq {format : ExportFormat} (h : format = panel.format) :
    panel.setFormat format = ⟨panel, (), []⟩ := if_pos h

theorem setFormat_of_ne {format : ExportFormat} (h : format ≠ panel.format) :
    panel.setFormat format = { panel with format := format }.refresh := if_neg h

/-- The text is that of the panel's own config, format and settings. -/
def Fresh (panel : Panel) : Prop :=
  panel.exported = exportOf panel.config panel.format panel.settings

/-- Where an operation leads a panel. -/
structure Leads (panel : Panel) (operation : Operation) (after : Panel) : Prop where
  settings : after.settings = panel.settings
  config : after.config = operation.config?.getD panel.config
  format : after.format = operation.format?.getD panel.format
  fresh : panel.Fresh → after.Fresh
  preview : after.preview =
    (panel.asked? operation).elim panel.preview fun asked => (panel.preview.perform asked).state

theorem leads_perform (panel : Panel) (operation : Operation) :
    panel.Leads operation (panel.perform operation).state := by
  cases operation with
  | bind config target => exact ⟨rfl, rfl, rfl, fun _ => rfl, rfl⟩
  | setConfig config => exact ⟨rfl, rfl, rfl, fun _ => rfl, rfl⟩
  | setFormat format =>
    change panel.Leads _ (panel.setFormat format).state
    by_cases hformat : format = panel.format
    · rw [setFormat_of_eq hformat]
      exact ⟨rfl, rfl, hformat.symm, id, rfl⟩
    · rw [setFormat_of_ne hformat]
      exact ⟨rfl, rfl, rfl, fun _ => rfl, rfl⟩
  | startCopy =>
    change panel.Leads _ panel.startCopy.state
    cases ht : panel.text? with
    | none =>
      simp only [startCopy, ht]
      exact ⟨rfl, rfl, rfl, id, rfl⟩
    | some text =>
      simp only [startCopy, ht]
      exact ⟨rfl, rfl, rfl, id, rfl⟩
  | _ => exact ⟨rfl, rfl, rfl, id, rfl⟩

theorem callsTo_perform : callsTo id (panel.perform operation).effects =
    (panel.asked? operation).elim [] fun asked =>
      callsTo id (panel.preview.perform asked).effects := by
  cases operation with
  | bind config target =>
    change callsTo id (_ ++ _) = _
    rw [callsTo_append, callsTo_refresh, List.nil_append]
    rfl
  | setConfig config =>
    change callsTo id (_ ++ _) = _
    rw [callsTo_append, callsTo_refresh, List.nil_append]
    rfl
  | setFormat format =>
    change callsTo id (panel.setFormat format).effects = []
    by_cases hformat : format = panel.format
    · rw [setFormat_of_eq hformat, callsTo_nil]
    · rw [setFormat_of_ne hformat, callsTo_refresh]
  | startCopy =>
    change callsTo id panel.startCopy.effects = []
    cases ht : panel.text? <;> simp [startCopy, ht]
  | endCopy number result now => exact callsTo_map_note
  | _ => rfl

/-- The preview is asked to show the config that the panel then has. -/
theorem config_asked {asked : Binder.Operation} (h : panel.asked? operation = some asked) :
    asked.config?.or (some panel.config) = some (operation.config?.getD panel.config) := by
  cases operation <;> simp only [asked?, Option.some.injEq, reduceCtorEq] at h <;> subst h <;> rfl

theorem config_of_not_asked (h : panel.asked? operation = none) :
    operation.config?.getD panel.config = panel.config := by
  cases operation <;> simp only [asked?, reduceCtorEq] at h <;> rfl

end Panel

/-- A panel and the page with the elements of its preview. -/
structure Session where
  panel : Panel
  page : Page

inductive Session.Step where
  | operate (operation : Panel.Operation)
  | touch (element : ElementId) (call : ElementCall)
deriving DecidableEq

namespace Session

variable {session other : Session} {alone page : Page} {steps : List Step} {step : Step}
  {settings : Settings} {config : Config}

namespace Step

/-- The page has all names but those of previews. -/
def Courteous : Step → Prop
  | .operate _ => True
  | .touch _ call => Preview.names.others.covers call = true

/-- The page by itself, without any panel. -/
def touchOf (page : Page) : Step → Page
  | .operate _ => page
  | .touch id call => page.touch id call

def config? : Step → Option Config
  | .operate operation => operation.config?
  | .touch _ _ => none

def format? : Step → Option ExportFormat
  | .operate operation => operation.format?
  | .touch _ _ => none

end Step

def start (settings : Settings) (config : Config) (page : Page) : Session :=
  ⟨(Panel.create settings config).1, page⟩

def perform (session : Session) : Step → Session
  | .operate operation =>
    let outcome := session.panel.perform operation
    ⟨outcome.state, session.page.performAll outcome.effects⟩
  | .touch id call => { session with page := session.page.touch id call }

def run (session : Session) (steps : List Step) : Session := steps.foldl perform session

/-- The page by itself after some steps. -/
def touches (page : Page) (steps : List Step) : Page := steps.foldl Step.touchOf page

/-- The config that some steps gave last, if any. -/
def lastConfig (config : Config) (steps : List Step) : Config :=
  (steps.filterMap Step.config?).getLast?.getD config

def lastFormat (format : ExportFormat) (steps : List Step) : ExportFormat :=
  (steps.filterMap Step.format?).getLast?.getD format

/-- What a panel keeps in step: text and preview with its config, and the page with the preview. -/
structure Consistent (session : Session) (alone : Page) : Prop where
  fresh : session.panel.Fresh
  situation : session.panel.preview.Situation (some session.panel.config)
  shows : session.page.Shows Preview.names
    (session.panel.preview.share (some session.panel.config))
  beside : Page.Beside Preview.names session.page alone
  /-- The page by itself carries nothing of any preview. -/
  clear : alone.Shows Preview.names fun _ => .empty

theorem consistent_start (hclear : page.Shows Preview.names fun _ => .empty) :
    (start settings config page).Consistent page := by
  refine ⟨rfl, .unbound rfl rfl rfl, hclear, ?_, hclear⟩
  apply Page.beside_self
  intro id a ha
  obtain ⟨target, ht, rfl⟩ := Page.appearance?_eq_some ha
  exact (hclear id target ht).2

theorem consistent_perform (h : session.Consistent alone) (hcourteous : step.Courteous) :
    (session.perform step).Consistent (step.touchOf alone) := by
  cases step with
  | touch id call =>
    exact ⟨h.fresh, h.situation, Page.shows_touch h.shows hcourteous,
      Page.beside_touch h.beside hcourteous, Page.shows_touch h.clear hcourteous⟩
  | operate operation =>
    have hleads := session.panel.leads_perform operation
    have hcalls : ∀ id, callsTo id (session.panel.perform operation).effects =
        (session.panel.asked? operation).elim [] fun asked =>
          callsTo id (session.panel.preview.perform asked).effects :=
      fun _ => Panel.callsTo_perform
    have hpreview := hleads.preview
    cases hasked : session.panel.asked? operation with
    | none =>
      simp only [hasked, Option.elim_none] at hcalls hpreview
      have hconfig := hleads.config.trans (Panel.config_of_not_asked hasked)
      refine ⟨hleads.fresh h.fresh, ?_, ?_, Page.beside_performAll h.beside ?_, h.clear⟩
      · simp only [perform, hpreview, hconfig]
        exact h.situation
      · simp only [perform, hpreview, hconfig]
        exact Page.shows_performAll_of_nil h.shows hcalls
      · simp [hcalls]
    | some asked =>
      simp only [hasked, Option.elim_some] at hcalls hpreview
      have hconfig := Panel.config_asked hasked
      rw [← hleads.config] at hconfig
      refine ⟨hleads.fresh h.fresh, ?_, ?_, Page.beside_performAll h.beside ?_, h.clear⟩
      · simp only [perform, hpreview, ← hconfig]
        exact session.panel.preview.situation_perform asked h.situation
      · simp only [perform, hpreview, ← hconfig]
        exact session.panel.preview.shows_perform asked h.situation h.shows hcalls
      · intro id call hc
        rw [hcalls] at hc
        exact Binder.covers_perform (Binder.within_of_situation h.situation) hc

theorem consistent_run (h : session.Consistent alone)
    (hcourteous : ∀ step ∈ steps, step.Courteous) :
    (session.run steps).Consistent (touches alone steps) := by
  induction steps generalizing session alone with
  | nil => exact h
  | cons step steps ih =>
    have hstep := consistent_perform h (hcourteous step List.mem_cons_self)
    exact ih hstep fun later hl => hcourteous later (List.mem_cons_of_mem _ hl)

/-! The inputs that were given last. -/

theorem run_append_singleton :
    session.run (steps ++ [step]) = (session.run steps).perform step := by
  simp [run, List.foldl_append]

theorem lastConfig_append_singleton :
    lastConfig config (steps ++ [step]) = step.config?.getD (lastConfig config steps) := by
  cases h : step.config? <;> simp [lastConfig, h]

theorem lastFormat_append_singleton {format : ExportFormat} :
    lastFormat format (steps ++ [step]) = step.format?.getD (lastFormat format steps) := by
  cases h : step.format? <;> simp [lastFormat, h]

theorem inputs_run (settings : Settings) (config : Config) (page : Page) (steps : List Step) :
    ((start settings config page).run steps).panel.settings = settings ∧
      ((start settings config page).run steps).panel.config = lastConfig config steps ∧
      ((start settings config page).run steps).panel.format =
        lastFormat settings.defaultFormat steps := by
  induction steps using List.reverseRecOn with
  | nil => exact ⟨rfl, rfl, rfl⟩
  | append_singleton steps step ih =>
    obtain ⟨hsettings, hconfig, hformat⟩ := ih
    rw [run_append_singleton, lastConfig_append_singleton, lastFormat_append_singleton,
      ← hconfig, ← hformat]
    cases step with
    | touch id call => exact ⟨hsettings, rfl, rfl⟩
    | operate operation =>
      have hleads := Panel.leads_perform ((start settings config page).run steps).panel operation
      exact ⟨hleads.settings.trans hsettings, hleads.config, hleads.format⟩

/-- Text and preview are those of the inputs. -/
structure Current (session : Session) (settings : Settings) (config : Config)
    (format : ExportFormat) : Prop where
  settings_eq : session.panel.settings = settings
  config_eq : session.panel.config = config
  format_eq : session.panel.format = format
  exported_eq : session.panel.exported = Panel.exportOf config format settings
  animating_iff : session.panel.preview.target ≠ none →
    (session.panel.preview.state = .running ∨ session.panel.preview.state = .paused ↔
      ∃ text, session.panel.exported = .ok text)
  bound_iff : session.panel.preview.target ≠ none →
    (session.panel.preview.state = .bound ↔ ∃ cause, session.panel.exported = .error cause)
  token : ∀ {text}, session.panel.preview.target ≠ none → session.panel.exported = .ok text →
    session.panel.preview.marks.token = Preview.token? config
  /-- The element carries the class and the properties of the config, and at most a play state. -/
  carried : ∀ {id target text}, session.panel.preview.target = some id →
    session.panel.exported = .ok text → session.page.elements[id]? = some target →
    target.element.classes.filter Preview.names.ofClass = (Preview.token? config).toList ∧
      ∃ play : Option String, (target.element.style.keep Preview.names.ofStyle).Perm
        (Preview.properties config ++ play.toList.map fun value => (playStateName, value))
  preview : session.panel.preview.Represents (some config) session.page

theorem exportOf_ok_iff {format : ExportFormat} :
    (∃ text, Panel.exportOf config format settings = .ok text) ↔
      ∃ animation, Animation.ofConfig config = .ok animation := by
  cases h : Animation.ofConfig config <;> simp [Panel.exportOf, Config.source, h, Except.map]

theorem exportOf_error_iff {format : ExportFormat} :
    (∃ cause, Panel.exportOf config format settings = .error cause) ↔
      ∃ cause, Animation.ofConfig config = .error cause := by
  cases h : Animation.ofConfig config <;> simp [Panel.exportOf, Config.source, h, Except.map]

theorem current_of_consistent (h : session.Consistent alone) :
    session.Current session.panel.settings session.panel.config session.panel.format := by
  have hpreview := Binder.represents_of_shows h.situation h.shows
  have hanimating : session.panel.preview.target ≠ none →
      (session.panel.preview.state = .running ∨ session.panel.preview.state = .paused ↔
        ∃ text, session.panel.exported = .ok text) := by
    intro ht
    rw [hpreview.animating_iff, h.fresh, exportOf_ok_iff]
    simp [ht]
  have hbound : session.panel.preview.target ≠ none →
      (session.panel.preview.state = .bound ↔ ∃ cause, session.panel.exported = .error cause) := by
    intro ht
    rw [hpreview.bound_iff, h.fresh, exportOf_error_iff]
    simp [ht]
  refine ⟨rfl, rfl, rfl, h.fresh, hanimating, hbound, ?_, ?_, hpreview⟩
  · intro text ht hexported
    obtain ⟨animation, hc⟩ := exportOf_ok_iff.mp ⟨text, h.fresh.symm.trans hexported⟩
    exact Binder.token_of_situation h.situation hc ht
  · intro id target text ht hexported he
    have hne : session.panel.preview.target ≠ none := by simp [ht]
    obtain ⟨token, play, hk, -, hclasses, hstyle, -⟩ :=
      hpreview.shows ((hanimating hne).mpr ⟨text, hexported⟩) ht rfl he
    exact ⟨by rw [hclasses, hk, Option.toList_some], play, hstyle⟩

/-- Two sessions of which the same is seen. -/
structure SameView (session other : Session) : Prop where
  exported : session.panel.exported = other.panel.exported
  state : session.panel.preview.state = other.panel.preview.state
  target : session.panel.preview.target = other.panel.preview.target
  marks : session.panel.preview.marks = other.panel.preview.marks
  appearance? : ∀ id, session.page.appearance? id = other.page.appearance? id

/-- A preview that lets go leaves the page to itself. -/
theorem appearance?_release (h : session.Consistent alone) (id : ElementId) :
    (session.page.performAll session.panel.preview.release.effects).appearance? id =
      alone.appearance? id := by
  have hcovers : ∀ id, ∀ call ∈ callsTo id session.panel.preview.release.effects,
      Preview.names.covers call = true :=
    fun id call hc => Binder.covers_release (Binder.within_of_situation h.situation) hc
  apply (Page.beside_performAll h.beside hcovers).appearance?_of_empty
  intro a ha
  obtain ⟨target, ht, rfl⟩ := Page.appearance?_eq_some ha
  rw [(Page.shows_performAll h.shows hcovers id target ht).2.2]
  exact Binder.share_release h.situation

/-- What a bind makes of the page depends on the page by itself only. -/
theorem appearance?_bind {target : Option ElementId} (h : session.Consistent alone)
    (id : ElementId) :
    (session.perform (.operate (.bind config target))).page.appearance? id =
      (alone.appearance? id).map
        (·.applyAll (callsTo id (Binder.apply { target := target } config).effects)) := by
  have hcalls : callsTo id (session.panel.perform (.bind config target)).effects =
      callsTo id session.panel.preview.release.effects ++
        callsTo id (Binder.apply { target := target } config).effects := by
    have hbind : callsTo id (session.panel.perform (.bind config target)).effects =
        callsTo id (session.panel.preview.bind config target).effects := Panel.callsTo_perform
    rw [hbind, Binder.bind_of_new.2.2 id]
  rw [← appearance?_release h, Page.appearance?_performAll h.shows, Option.map_map]
  refine (Page.appearance?_performAll h.shows).trans ?_
  rw [hcalls]
  apply Option.map_congr
  intro a _
  exact Appearance.applyAll_append

/-- Once they are bound to the same, two sessions show the same. -/
theorem sameView_bind {target : Option ElementId} (h : session.Consistent alone)
    (hother : other.Consistent alone) (hsettings : session.panel.settings = other.panel.settings)
    (hformat : session.panel.format = other.panel.format) :
    (session.perform (.operate (.bind config target))).SameView
      (other.perform (.operate (.bind config target))) := by
  have hpreview : ∀ s : Session, (s.perform (.operate (.bind config target))).panel.preview =
      (s.panel.preview.bind config target).state := fun _ => rfl
  refine ⟨?_, ?_, ?_, ?_, ?_⟩
  · change Panel.exportOf config session.panel.format session.panel.settings =
      Panel.exportOf config other.panel.format other.panel.settings
    rw [hsettings, hformat]
  · rw [hpreview, hpreview, Binder.bind_of_new.1, Binder.bind_of_new.1]
  · rw [hpreview, hpreview, Binder.bind_state, Binder.bind_state, Binder.apply_target,
      Binder.apply_target]
  · rw [hpreview, hpreview, Binder.bind_of_new.2.1, Binder.bind_of_new.2.1]
  · intro id
    rw [appearance?_bind h, appearance?_bind hother]

theorem perform_setConfig (config : Config) :
    session.perform (.operate (.setConfig config)) =
      session.perform (.operate (.bind config session.panel.preview.target)) := rfl

/-- A new panel that is switched to a format and given a config and an element. -/
def anew (settings : Settings) (format : ExportFormat) (page : Page) (first config : Config)
    (target : Option ElementId) : Session :=
  (start settings first page).run [.operate (.setFormat format), .operate (.bind config target)]

theorem sameView_anew {format : ExportFormat} {first : Config} {target : Option ElementId}
    (h : session.Consistent alone) (hsettings : session.panel.settings = settings)
    (hformat : session.panel.format = format) :
    (session.perform (.operate (.bind config target))).SameView
      (anew settings format alone first config target) := by
  let fresh := (start settings first alone).run [.operate (.setFormat format)]
  have hfresh : fresh.Consistent alone :=
    consistent_run (consistent_start h.clear) (by simp [Step.Courteous])
  obtain ⟨hsettings', -, hformat'⟩ := inputs_run settings first alone [.operate (.setFormat format)]
  exact sameView_bind h hfresh (hsettings.trans hsettings'.symm) (hformat.trans hformat'.symm)

/-- After any operations the text and the preview are those of the newest config and format, and
once a config is set or bound nothing tells the panel from a new one. -/
theorem current_run (settings : Settings) (first : Config) (hcomplies : page.Complies)
    (hpage : page.Untouched) (hcourteous : ∀ step ∈ steps, step.Courteous) :
    ((start settings first page).run steps).Current settings (lastConfig first steps)
        (lastFormat settings.defaultFormat steps) ∧
      ∀ other config,
        (∀ target, (((start settings first page).run steps).perform
          (.operate (.bind config target))).SameView
            (anew settings (lastFormat settings.defaultFormat steps) (touches page steps) other
              config target)) ∧
        (((start settings first page).run steps).perform (.operate (.setConfig config))).SameView
          (anew settings (lastFormat settings.defaultFormat steps) (touches page steps) other
            config ((start settings first page).run steps).panel.preview.target) := by
  have hstart : (start settings first page).Consistent page :=
    consistent_start (Page.shows_of_untouched hcomplies hpage)
  have hconsistent := consistent_run hstart hcourteous
  obtain ⟨hsettings, hconfig, hformat⟩ := inputs_run settings first page steps
  have hcurrent := current_of_consistent hconsistent
  rw [hsettings, hconfig, hformat] at hcurrent
  refine ⟨hcurrent, ?_⟩
  intro other config
  refine ⟨fun target => sameView_anew hconsistent hsettings hformat, ?_⟩
  rw [perform_setConfig]
  exact sameView_anew hconsistent hsettings hformat

/-- A config that is replaced by one of no known kind while another element is on show. -/
def replacedInBetween : List Step :=
  let slide : Config :=
    { kind := .family .slide, duration := .ofNat 1, distance := some (.ofInt (-20)) }
  [.operate (.bind slide (some 0)), .operate .pause, .operate (.setFormat .css),
    .operate (.setConfig { kind := .unsupported "spin", duration := .ofNat 1 }),
    .touch 0 (.addClass "wide"), .operate (.attach 1), .operate .startCopy, .operate .detach,
    .operate (.attach 0), .operate (.setConfig slide)]

theorem current_run_replacedInBetween :
    Scene.twoElements.Complies ∧ Scene.twoElements.Untouched ∧
      (∀ step ∈ replacedInBetween, step.Courteous) ∧
      ((start {} { kind := .family .fade, duration := .ofNat 1 } Scene.twoElements).run
        replacedInBetween).Current {}
          (lastConfig { kind := .family .fade, duration := .ofNat 1 } replacedInBetween) .css := by
  have hcourteous : ∀ step ∈ replacedInBetween, step.Courteous := by
    simp [replacedInBetween, Step.Courteous, Names.covers, Names.others, Preview.names]
    decide
  exact ⟨Scene.complies_twoElements, Scene.untouched_twoElements, hcourteous,
    (current_run _ _ Scene.complies_twoElements Scene.untouched_twoElements hcourteous).1⟩

end Session
end AnimationKit
