import AnimationKit.Log
import AnimationKit.Page.Element

/-!
Pages: numbered elements that take calls, and the reports and calls of an operation in the order in
which it makes them.
-/
namespace AnimationKit

/-- An element by its number on the page. -/
abbrev ElementId := Nat

/-- What an operation does to the world. -/
inductive Effect where
  | call (element : ElementId) (call : ElementCall)
  | note (note : Note)
deriving DecidableEq

/-- An operation's result, the state after it and its effects. -/
structure Outcome (State Result : Type) where
  state : State
  result : Result
  effects : List Effect

/-- The same outcome with another view of its result. -/
def Outcome.map {State α β : Type} (f : α → β) (outcome : Outcome State α) : Outcome State β :=
  ⟨outcome.state, f outcome.result, outcome.effects⟩

/-- How an element takes calls. -/
inductive Conduct where
  | plain
  /-- Flushing the layout does nothing and is not seen. -/
  | withoutReflow
  /-- Every change fails for this reason, and a flush does nothing. -/
  | refusing (reason : String)
deriving DecidableEq

structure PageElement where
  element : Element
  conduct : Conduct := .plain
deriving DecidableEq

def ElementCall.failure? : ElementCall → Option ElementFailure
  | addClass token => some (.addClass token)
  | removeClass token => some (.removeClass token)
  | setStyle name _ => some (.setStyle name)
  | removeStyle name => some (.removeStyle name)
  | reflow => none

/-- The element after a call, whether it saw the call, and the reports about it. -/
def PageElement.take (target : PageElement) (call : ElementCall) :
    PageElement × Bool × List Note :=
  match target.conduct with
  | .plain => ({ target with element := target.element.apply call }, true, [])
  | .withoutReflow =>
    if call = .reflow then (target, false, [])
    else ({ target with element := target.element.apply call }, true, [])
  | .refusing reason =>
    (target, true, call.failure?.toList.map fun change => .elementFailed change reason)

/-- A page after some effects: its elements, the calls they saw, and the reports. -/
structure Page where
  elements : List PageElement
  calls : List (ElementId × ElementCall) := []
  notes : List Note := []
deriving DecidableEq

namespace Page

def perform (page : Page) : Effect → Page
  | .note note => { page with notes := page.notes ++ [note] }
  | .call id call =>
    match page.elements[id]? with
    | none => page
    | some target =>
      let (after, seen, notes) := target.take call
      { elements := page.elements.set id after
        calls := if seen then page.calls ++ [(id, call)] else page.calls
        notes := page.notes ++ notes }

def performAll (page : Page) (effects : List Effect) : Page := effects.foldl perform page

/-- A call that the page makes by itself. -/
def touch (page : Page) (id : ElementId) (call : ElementCall) : Page :=
  { page with elements := page.elements.modify id fun target =>
      { target with element := target.element.apply call } }

end Page
end AnimationKit
