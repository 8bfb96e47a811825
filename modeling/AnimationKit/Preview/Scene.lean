import AnimationKit.Preview.Binder

/-!
Scenes: several binders at work on the elements of one page, which the page may touch by itself.
-/
namespace AnimationKit

namespace Binder

inductive Operation where
  | bind (config : Config) (target : Option ElementId)
  | rebind (config : Config)
  | replay
  | pause
  | resume
  | unbind
deriving DecidableEq

inductive Reply where
  | state (state : PreviewState)
  | success (success : Bool)
  | released (target : Option ElementId)
deriving DecidableEq

def perform (binder : Binder) : Operation → Outcome Binder Reply
  | .bind config target => (binder.bind config target).map .state
  | .rebind config => (binder.rebind config).map .state
  | .replay => binder.replay.map .success
  | .pause => binder.pause.map .success
  | .resume => binder.resume.map .success
  | .unbind => binder.unbind.map .released

end Binder

structure Scene where
  binders : List Binder
  page : Page

inductive Scene.Step where
  | operate (binder : Nat) (operation : Binder.Operation)
  /-- A binder goes away and a new one takes its place. -/
  | renew (binder : Nat)
  | touch (element : ElementId) (call : ElementCall)
deriving DecidableEq

namespace Scene

/-- What a step gives back; a step that is not an operation of a binder gives nothing. -/
def perform (scene : Scene) : Step → Scene × Option Binder.Reply
  | .operate index operation =>
    match scene.binders[index]? with
    | none => (scene, none)
    | some binder =>
      let outcome := binder.perform operation
      (⟨scene.binders.set index outcome.state, scene.page.performAll outcome.effects⟩,
        some outcome.result)
  | .renew index =>
    match scene.binders[index]? with
    | none => (scene, none)
    | some binder => (⟨scene.binders.set index {}, scene.page.performAll binder.drop⟩, none)
  | .touch element call => ({ scene with page := scene.page.touch element call }, none)

/-- All binders go away, in order. -/
def close (scene : Scene) : Page :=
  scene.binders.foldl (fun page binder => page.performAll binder.drop) scene.page

end Scene
end AnimationKit
