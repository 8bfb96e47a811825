import AnimationKit.Page.Basic
import AnimationKit.Preview.Style

/-!
Binders put previews on elements. A binder holds at most one element and remembers what it wrote
there, so that all of it is taken off before the next config, and when the element is let go.
-/
namespace AnimationKit

/-- The inline style that pauses a running preview in place. -/
def playStateName : String := "animation-play-state"

inductive PreviewState where
  /-- There is no element. -/
  | unbound
  /-- There is an element and nothing to animate on it. -/
  | bound
  | running
  | paused
deriving DecidableEq

def PreviewState.name : PreviewState → String
  | unbound => "unbound"
  | bound => "bound"
  | running => "running"
  | paused => "paused"

/-- What a binder wrote on its element. -/
structure Marks where
  token : Option String := none
  properties : List String := []
  playState : Bool := false
deriving DecidableEq

structure Binder where
  target : Option ElementId := none
  marks : Marks := {}
  state : PreviewState := .unbound
  /-- How often the preview was replayed. -/
  replays : UInt64 := 0
deriving DecidableEq

/-- The calls that take everything off again. -/
def Marks.removal (marks : Marks) : List ElementCall :=
  marks.token.toList.map .removeClass ++ marks.properties.map .removeStyle ++
    if marks.playState then [.removeStyle playStateName] else []

namespace Binder

/-- Calls on the element that the binder holds. -/
def onTarget (binder : Binder) (calls : List ElementCall) : List Effect :=
  match binder.target with
  | some id => calls.map (.call id)
  | none => []

/-- Takes off what was written. -/
def release (binder : Binder) : Outcome Binder Unit :=
  let state := match binder.target with
    | none => binder.state
    | some _ => if binder.state = .unbound then .unbound else .bound
  ⟨{ binder with marks := {}, state := state }, (), binder.onTarget binder.marks.removal⟩

/-- Puts a config on an element that carries nothing of this binder. The class comes last, when
everything that its animation reads is in place. -/
def apply (binder : Binder) (config : Config) : Outcome Binder PreviewState :=
  match binder.target with
  | none => ⟨{ binder with state := .unbound }, .unbound, []⟩
  | some _ =>
    match Animation.ofConfig config with
    | .error cause =>
      ⟨{ binder with state := .bound }, .bound, [.note (.previewDisabled config.kind cause)]⟩
    | .ok _ =>
      let properties := Preview.properties config
      let token := Preview.token? config
      ⟨{ binder with
          marks := ⟨token, properties.map (·.1), false⟩
          state := .running },
        .running,
        binder.onTarget (properties.map (fun (name, value) => .setStyle name value) ++
          token.toList.map .addClass) ++ [.note (.previewBound token config.kind)]⟩

/-- Puts another config on the same element. -/
def rebind (binder : Binder) (config : Config) : Outcome Binder PreviewState :=
  let released := binder.release
  let shown := released.state.apply config
  { shown with effects := released.effects ++ shown.effects }

/-- Puts a config on an element, or lets go of the present one. -/
def bind (binder : Binder) (config : Config) (target : Option ElementId) :
    Outcome Binder PreviewState :=
  let released := binder.release
  let shown := { released.state with target := target }.apply config
  { shown with effects := released.effects ++ shown.effects }

/-- Restarts the animation from its beginning; false if there is none. -/
def replay (binder : Binder) : Outcome Binder Bool :=
  match binder.target, binder.marks.token with
  | some _, some token =>
    let key := binder.replays + 1
    let resumption :=
      if binder.marks.playState then [.removeStyle playStateName] else []
    ⟨{ binder with
        marks := { binder.marks with playState := false }
        state := .running
        replays := key },
      true,
      binder.onTarget (resumption ++ [.removeClass token, .reflow, .addClass token]) ++
        [.note (.replayed token key)]⟩
  | _, _ => ⟨binder, false, []⟩

/-- Sets the play state and goes on in another state, if the binder is in a given one. -/
def hold (binder : Binder) (before after : PreviewState) (value : String) (note : Note) :
    Outcome Binder Bool :=
  if binder.state = before ∧ binder.target.isSome then
    ⟨{ binder with marks := { binder.marks with playState := true }, state := after }, true,
      binder.onTarget [.setStyle playStateName value] ++ [.note note]⟩
  else ⟨binder, false, []⟩

/-- Holds a running animation where it is. -/
def pause (binder : Binder) : Outcome Binder Bool :=
  binder.hold .running .paused "paused" .paused

/-- Goes on with a paused animation. -/
def resume (binder : Binder) : Outcome Binder Bool :=
  binder.hold .paused .running "running" .resumed

/-- Takes everything off the element and hands it back. -/
def unbind (binder : Binder) : Outcome Binder (Option ElementId) :=
  let released := binder.release
  ⟨{ released.state with target := none, state := .unbound }, binder.target,
    released.effects ++ [.note .unbound]⟩

/-- Takes everything off an element whose binder goes away. -/
def drop (binder : Binder) : List Effect := binder.release.effects

end Binder
end AnimationKit
