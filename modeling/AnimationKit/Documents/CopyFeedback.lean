import AnimationKit.Documents.Config
import AnimationKit.Export.Copy

/-!
Copy outcomes as JSON documents: an object in which the field `status` says what else is to be read,
or an array with the status in front of the rest.
-/
namespace AnimationKit

open Json

namespace CopyFeedback

inductive Tag where
  | idle
  | copied
  | failed

def tags : List (String × Tag) := [("idle", .idle), ("copied", .copied), ("failed", .failed)]

def readTag : Reader Tag := do Reader.chosen tags (← Reader.textAs .tag)

/-- What a document holds beside its tag. -/
inductive Content where
  | members (members : List (String × Value))
  | items (items : List Value)

/-- Reads members up to the closing brace: the tag, and all others as they are. -/
def readMembers : Nat → Bool → Option Tag → List (String × Value) → Reader (Tag × Content)
  | 0, _, _, _ => Reader.failHere (.unfinished .object)
  | bound + 1, first, tag, others => do
    if ← Reader.nextKey first then
      let key ← Reader.quotedString
      if key = "status" then
        if tag.isSome then Reader.failUnplaced (.duplicateField "status")
        else
          Reader.colon
          let tag ← readTag
          readMembers bound false (some tag) others
      else
        Reader.colon
        let value ← Reader.value (maxDepth - 1)
        readMembers bound false tag (others ++ [(key, value)])
    else
      match tag with
      | some tag => pure (tag, .members others)
      | none => Reader.failUnplaced (.missingField "status")

/-- Reads the items of an array and its closing bracket: the tag, and all others as they are. -/
def readItems : Reader (Tag × Content) := do
  let bound ← Reader.ahead
  if ← Reader.nextItem true then
    let tag ← readTag
    let others ← Reader.items (Reader.value (maxDepth - 1)) (bound + 1) false
    pure (tag, .items others)
  else
    Reader.next
    Reader.failHere (.missingField "status")

def foundAs : Value → Found
  | .null => .null
  | .bool value => .bool value
  | .number value => .number value
  | .text value => .text value
  | .array _ => .sequence
  | .object _ => .map

def textOf : Value → Except Cause String
  | .text text => .ok text
  | other => .error (.wrongType (foundAs other) .text)

/-- The message among the members of a failure; no other member matters. -/
def messageOfMembers (members : List (String × Value)) : Except Cause String :=
  go none members
where
  go : Option String → List (String × Value) → Except Cause String
    | none, [] => .error (.missingField "message")
    | some message, [] => .ok message
    | message, (key, value) :: rest =>
      if key = "message" then
        if message.isSome then .error (.duplicateField "message")
        else do go (some (← textOf value)) rest
      else go message rest

/-- The message of a failure that is written as an array; nothing may stand behind it. -/
def messageOfItems : List Value → Except Cause String
  | [] => .error (.wrongLength 0 (.variantRecord "CopyStatus::Failed") 1)
  | value :: rest => do
    let message ← textOf value
    if rest.isEmpty then pure message else .error (.extraItems (rest.length + 1) 1)

/-- An outcome that takes nothing from a document; members do not matter, items may not be there. -/
def bare (feedback : CopyFeedback) : Content → Except Cause CopyFeedback
  | .members _ | .items [] => .ok feedback
  | .items items => .error (.extraItems items.length 0)

/-- The outcome with a given tag. -/
def build : Tag → Content → Except Cause CopyFeedback
  | .idle, content => bare .idle content
  | .copied, content => bare .copied content
  | .failed, .members members => .failed <$> messageOfMembers members
  | .failed, .items items => .failed <$> messageOfItems items

/-- Reads the tag and the content of a document. -/
def readParts : Reader (Tag × Content) := do
  let first ← Reader.firstOfValue
  if first = '\x7b' then
    Reader.next
    let bound ← Reader.ahead
    Reader.enclosed (readMembers (bound + 1) true none []) Reader.closeObject Cursor.closeObject
  else if first = '[' then
    Reader.next
    readItems
  else Reader.wrongType (.taggedRecord "CopyStatus")

def read : Reader CopyFeedback := do
  let (tag, content) ← readParts
  match build tag content with
  | .ok feedback => pure feedback
  | .error cause => Reader.failUnplaced cause

def ofJson (text : String) : Except ConfigError CopyFeedback := readDocument read text

def toJson (feedback : CopyFeedback) : Value :=
  .object (("status", .text feedback.name) :: match feedback with
    | .failed message => [("message", .text message)]
    | _ => [])

end CopyFeedback
end AnimationKit
