import AnimationKit.Log

/-!
Copies of exported text. The host writes to its clipboard in its own time, so a copy is begun here
and finished later by its number; only the newest copy counts.
-/
namespace AnimationKit

/-- What a user is told about the last copy. -/
inductive CopyFeedback where
  | idle
  | copied
  | failed (message : String)
deriving DecidableEq

def CopyFeedback.name : CopyFeedback → String
  | idle => "idle"
  | copied => "copied"
  | failed _ => "failed"

/-- How the host's write went. -/
inductive CopyResult where
  | written
  | failed (message : String)
deriving DecidableEq

def CopyResult.feedback : CopyResult → CopyFeedback
  | written => .copied
  | failed message => .failed message

def CopyResult.notes : CopyResult → List Note
  | written => []
  | failed message => [.copyFailed message]

/-- Text to be put on the clipboard. -/
structure CopyTicket where
  id : UInt64
  text : String
deriving DecidableEq

structure Copies where
  nextId : UInt64 := 0
  pending : Option UInt64 := none
  /-- The last outcome and the time at which it came, in milliseconds. -/
  last : Option (CopyFeedback × Binary64) := none
deriving DecidableEq

namespace Copies

/-- Begins a copy; an earlier one that is not finished is given up. -/
def start (copies : Copies) (text : String) : Copies × CopyTicket :=
  ({ copies with nextId := copies.nextId + 1, pending := some copies.nextId },
    ⟨copies.nextId, text⟩)

/-- Takes the outcome of a copy, unless it was given up or has been finished before. -/
def finish (copies : Copies) (id : UInt64) (result : CopyResult) (now : Binary64) :
    Copies × Bool × List Note :=
  if copies.pending = some id then
    ({ copies with pending := none, last := some (result.feedback, now) }, true, result.notes)
  else (copies, false, [.staleCopy id])

/-- The last outcome while it is shown. -/
def feedback (copies : Copies) (shownFor now : Binary64) : CopyFeedback :=
  match copies.last with
  | some (feedback, time) => if (now.sub time).lt shownFor then feedback else .idle
  | none => .idle

/-- Hides a failure before its time. -/
def dismiss (copies : Copies) : Copies :=
  match copies.last with
  | some (.failed _, _) => { copies with last := none }
  | _ => copies

end Copies
end AnimationKit
