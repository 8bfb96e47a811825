import AnimationKit.Export.Copy
import AnimationKit.Export.Source
import AnimationKit.Preview.Binder

/-!
The export panel: one config with its preview, its export in the active format, and the copies made
of it. The newest config counts for preview and export alike.
-/
namespace AnimationKit

structure Panel where
  settings : Settings
  config : Config
  format : ExportFormat
  /-- The export of the config in the active format, or why there is none. -/
  exported : Except AnimationError String
  preview : Binder := {}
  copies : Copies := {}

namespace Panel

/-- The text of a config's export. -/
def exportOf (config : Config) (format : ExportFormat) (settings : Settings) :
    Except AnimationError String :=
  (config.source format settings).map Source.text

def exportNotes (config : Config) (format : ExportFormat) (settings : Settings) : List Note :=
  match config.source format settings with
  | .ok source => source.notes
  | .error _ => []

/-- A panel on its default format, with nothing previewed, and the reports of its first export. -/
def create (settings : Settings) (config : Config) : Panel × List Note :=
  (⟨settings, config, settings.defaultFormat,
      exportOf config settings.defaultFormat settings, {}, {}⟩,
    exportNotes config settings.defaultFormat settings)

def text? (panel : Panel) : Option String :=
  match panel.exported with
  | .ok text => some text
  | .error _ => none

/-- Exports the config anew. -/
def refresh (panel : Panel) : Outcome Panel Unit :=
  let exported := exportOf panel.config panel.format panel.settings
  let note : Note := match exported with
    | .ok text => .refreshed panel.format panel.config.kind text.utf8ByteSize
    | .error cause => .notExported panel.format cause
  ⟨{ panel with exported := exported }, (),
    (exportNotes panel.config panel.format panel.settings ++ [note]).map .note⟩

/-- An operation of the preview. -/
def onPreview {α : Type} (panel : Panel) (operation : Binder → Outcome Binder α) :
    Outcome Panel α :=
  let outcome := operation panel.preview
  ⟨{ panel with preview := outcome.state }, outcome.result, outcome.effects⟩

/-- Exports a new config and then runs an operation of the preview with it. -/
def withConfig {α : Type} (panel : Panel) (config : Config)
    (operation : Binder → Outcome Binder α) : Outcome Panel α :=
  let refreshed := { panel with config := config }.refresh
  let shown := refreshed.state.onPreview operation
  { shown with effects := refreshed.effects ++ shown.effects }

/-- Takes a new config and an element for it, or lets go of the present element. -/
def bind (panel : Panel) (config : Config) (target : Option ElementId) :
    Outcome Panel PreviewState :=
  panel.withConfig config fun binder => binder.bind config target

/-- Takes a new config for the present element. -/
def setConfig (panel : Panel) (config : Config) : Outcome Panel PreviewState :=
  panel.withConfig config fun binder => binder.rebind config

/-- Shows the present config on an element. -/
def attach (panel : Panel) (target : ElementId) : Outcome Panel PreviewState :=
  panel.onPreview fun binder => binder.bind panel.config (some target)

def detach (panel : Panel) : Outcome Panel (Option ElementId) := panel.onPreview Binder.unbind

/-- Switches the format. -/
def setFormat (panel : Panel) (format : ExportFormat) : Outcome Panel Unit :=
  if format = panel.format then ⟨panel, (), []⟩
  else { panel with format := format }.refresh

/-- Begins a copy of the present text, if there is one. -/
def startCopy (panel : Panel) : Outcome Panel (Option CopyTicket) :=
  match panel.text? with
  | none => ⟨panel, none, []⟩
  | some text =>
    let (copies, request) := panel.copies.start text
    ⟨{ panel with copies := copies }, some request, []⟩

/-- Reports how a copy went; false if it no longer counts. -/
def endCopy (panel : Panel) (id : UInt64) (result : CopyResult) (now : Binary64) :
    Outcome Panel Bool :=
  let (copies, accepted, notes) := panel.copies.finish id result now
  ⟨{ panel with copies := copies }, accepted, notes.map .note⟩

def copyFeedback (panel : Panel) (now : Binary64) : CopyFeedback :=
  panel.copies.feedback panel.settings.feedbackTime now

def dismissFailure (panel : Panel) : Panel := { panel with copies := panel.copies.dismiss }

def fileName (panel : Panel) : String := panel.format.fileName panel.config.kind

end Panel
end AnimationKit
