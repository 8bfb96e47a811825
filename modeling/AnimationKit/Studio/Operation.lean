import AnimationKit.Studio.Basic

/-!
The calls of a host on a studio, and the settling of its promises, as data.
-/
namespace AnimationKit.Studio

inductive Operation where
  | bind (config : HostValue) (target : Option ElementId)
  | setConfig (config : HostValue)
  | replay
  | pause
  | resume
  | unbind
  | dismissFailure
  | setFormat (name : String)
  | copy (writer : Writer)
  | settle (promise : Nat) (settlement : Settlement)

inductive Reply where
  | nothing
  | state (state : PreviewState)
  | success (success : Bool)
  /-- The text that a writer received. -/
  | written (text : String)
  | failed (message : String)
deriving DecidableEq

def Reply.ofAnswer {α : Type} (reply : α → Reply) : Answer α → Reply
  | .ok value => reply value
  | .error message => .failed message

/-- What happens on an operation at a given time. -/
def perform (studio : Studio) (now : Binary64) : Operation → Outcome Studio Reply
  | .bind config target => (studio.bind config target).map (.ofAnswer .state)
  | .setConfig config => (studio.setConfig config).map (.ofAnswer .state)
  | .replay => studio.replay.map .success
  | .pause => studio.pause.map .success
  | .resume => studio.resume.map .success
  | .unbind => studio.unbind.map fun _ => .nothing
  | .dismissFailure => ⟨studio.dismissFailure, .nothing, []⟩
  | .setFormat name => (studio.setFormat name).map (.ofAnswer fun _ => .nothing)
  | .copy writer => (studio.copy writer now).map (.ofAnswer .written)
  | .settle promise settlement => (studio.settle promise settlement now).map fun _ => .nothing

end AnimationKit.Studio
