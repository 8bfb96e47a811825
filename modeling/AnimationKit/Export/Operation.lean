import AnimationKit.Export.Panel

/-!
The operations of an export panel as data.
-/
namespace AnimationKit.Panel

inductive Operation where
  | bind (config : Config) (target : Option ElementId)
  | setConfig (config : Config)
  | attach (target : ElementId)
  | detach
  | setFormat (format : ExportFormat)
  | startCopy
  | endCopy (id : UInt64) (result : CopyResult) (now : Binary64)
  | dismissFailure
  | replay
  | pause
  | resume
deriving DecidableEq

inductive Reply where
  | nothing
  | state (state : PreviewState)
  | success (success : Bool)
  | released (target : Option ElementId)
  | request (request : Option CopyTicket)
deriving DecidableEq

def perform (panel : Panel) : Operation → Outcome Panel Reply
  | .bind config target => (panel.bind config target).map .state
  | .setConfig config => (panel.setConfig config).map .state
  | .attach target => (panel.attach target).map .state
  | .detach => panel.detach.map .released
  | .setFormat format => (panel.setFormat format).map fun _ => .nothing
  | .startCopy => panel.startCopy.map .request
  | .endCopy id result now => (panel.endCopy id result now).map .success
  | .dismissFailure => ⟨panel.dismissFailure, .nothing, []⟩
  | .replay => (panel.onPreview Binder.replay).map .success
  | .pause => (panel.onPreview Binder.pause).map .success
  | .resume => (panel.onPreview Binder.resume).map .success

end AnimationKit.Panel
