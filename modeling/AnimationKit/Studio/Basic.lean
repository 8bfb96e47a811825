import AnimationKit.Documents.Settings
import AnimationKit.Export.Panel
import AnimationKit.Studio.HostValue

/-!
Studios put an export panel at the service of a JavaScript host: configs come as host values, copies
go through a writer of the host that may answer with a promise.
-/
namespace AnimationKit

/-- What a function of the host does when it is to write text on the clipboard. -/
inductive Writer where
  | throws (thrown : HostValue)
  /-- It returns a promise, or a value that is taken as a promise. Even one that is settled already
  tells its outcome only after the call, and some never do. -/
  | answers

/-- How a promise is settled. -/
inductive Settlement where
  | fulfilled
  | rejected (reason : HostValue)

def Settlement.copyResult : Settlement → CopyResult
  | fulfilled => .written
  | rejected reason => .failed reason.failureMessage

structure Studio where
  panel : Panel
  /-- The copies that wait for a promise, in the order in which the promises were made; a settled one
  no longer stands for a copy. -/
  promises : List (Option UInt64) := []

/-- A call that fails gives the host a message. -/
abbrev Answer (α : Type) := Except String α

namespace Studio

/-- Reads a config for a call of the given name. -/
def readConfig (call : String) (value : HostValue) : Answer Config :=
  if value.isMissing then .error (call ++ ": config is null/undefined")
  else
    match value.stringify with
    | .error thrown => .error (call ++ " stringify error: " ++ thrown.inspect)
    | .ok none => .error (call ++ ": stringify produced non-string")
    | .ok (some text) =>
      match Config.load text with
      | .ok config => .ok config
      | .error error => .error (call ++ ": " ++ error.message)

/-- A new studio and its reports. Missing settings and a missing config stand for the defaults. -/
def create (settings : Settings) (config : HostValue) : Answer (Studio × List Note) := do
  let config ← if config.isMissing then pure Config.default else readConfig "new" config
  let (panel, notes) := Panel.create settings config
  pure (⟨panel, []⟩, notes)

/-- An operation of the panel. -/
def onPanel {α : Type} (studio : Studio) (outcome : Outcome Panel α) : Outcome Studio α :=
  ⟨{ studio with panel := outcome.state }, outcome.result, outcome.effects⟩

/-- A call that fails and leaves everything as it was. -/
def refuse {α : Type} (studio : Studio) (message : String) : Outcome Studio (Answer α) :=
  ⟨studio, .error message, []⟩

/-- An operation of the panel that the host sees succeed. -/
def accept {α : Type} (studio : Studio) (outcome : Outcome Panel α) : Outcome Studio (Answer α) :=
  let done := studio.onPanel outcome
  ⟨done.state, .ok done.result, done.effects⟩

def bind (studio : Studio) (config : HostValue) (target : Option ElementId) :
    Outcome Studio (Answer PreviewState) :=
  match readConfig "bind" config with
  | .ok config => studio.accept (studio.panel.bind config target)
  | .error message => studio.refuse message

def setConfig (studio : Studio) (config : HostValue) : Outcome Studio (Answer PreviewState) :=
  match readConfig "set_config" config with
  | .ok config => studio.accept (studio.panel.setConfig config)
  | .error message => studio.refuse message

def setFormat (studio : Studio) (name : String) : Outcome Studio (Answer Unit) :=
  match ExportFormat.ofText name with
  | .ok format => studio.accept (studio.panel.setFormat format)
  | .error error => studio.refuse ("set_backend: " ++ error.message)

def replay (studio : Studio) : Outcome Studio Bool :=
  studio.onPanel (studio.panel.onPreview Binder.replay)

def pause (studio : Studio) : Outcome Studio Bool :=
  studio.onPanel (studio.panel.onPreview Binder.pause)

def resume (studio : Studio) : Outcome Studio Bool :=
  studio.onPanel (studio.panel.onPreview Binder.resume)

def unbind (studio : Studio) : Outcome Studio (Option ElementId) :=
  studio.onPanel studio.panel.detach

def dismissFailure (studio : Studio) : Studio :=
  { studio with panel := studio.panel.dismissFailure }

/-- The exported text, or the message why there is none. -/
def exportedText (studio : Studio) : Answer String :=
  match studio.panel.exported with
  | .ok text => .ok text
  | .error error => .error error.message

/-- Reports how a copy went. -/
def endCopy (studio : Studio) (id : UInt64) (result : CopyResult) (now : Binary64) :
    Outcome Studio Bool :=
  studio.onPanel (studio.panel.endCopy id result now)

/-- Gives the exported text to a writer, and says what the writer received. -/
def copy (studio : Studio) (writer : Writer) (now : Binary64) : Outcome Studio (Answer String) :=
  let begun := studio.onPanel studio.panel.startCopy
  match begun.result with
  | none => studio.refuse "copy: no generated text"
  | some request =>
    match writer with
    | .throws thrown =>
      let done := begun.state.endCopy request.id (.failed thrown.failureMessage) now
      ⟨done.state, .ok request.text, begun.effects ++ done.effects⟩
    | .answers =>
      ⟨{ begun.state with promises := begun.state.promises ++ [some request.id] },
        .ok request.text, begun.effects⟩

/-- A promise of the host is settled; only the first settlement of each has an effect. -/
def settle (studio : Studio) (promise : Nat) (settlement : Settlement) (now : Binary64) :
    Outcome Studio Unit :=
  match studio.promises[promise]? with
  | some (some id) =>
    let done := { studio with promises := studio.promises.set promise none }.endCopy id
      settlement.copyResult now
    ⟨done.state, (), done.effects⟩
  | _ => ⟨studio, (), []⟩

def copyFeedback (studio : Studio) (now : Binary64) : CopyFeedback := studio.panel.copyFeedback now

/-- The component for a config of the host. -/
def generateReact (config : HostValue) : Answer Source := do
  let config ← readConfig "generate_react" config
  match config.reactSource none with
  | .ok source => .ok source
  | .error error => .error error.message

/-- The style sheet for a config of the host. -/
def generateCss (config : HostValue) : Answer Source := do
  let config ← readConfig "generate_css" config
  match config.cssSource with
  | .ok source => .ok source
  | .error error => .error error.message

/-- The version that a host checks before it uses a studio. -/
def interfaceVersion : Nat := 1

end Studio
end AnimationKit
