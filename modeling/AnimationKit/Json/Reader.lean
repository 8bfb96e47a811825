import AnimationKit.Json.Failure

/-!
Readers walk over a text and either give a value or say why they stopped. This module holds the
steps over single characters.
-/
namespace AnimationKit.Json

abbrev Reader := StateT Cursor (Except Failure)

def Cursor.start (text : List Char) : Cursor := ⟨text, 0⟩

namespace Cursor

/-- Moves over one character. -/
def next : Cursor → Cursor
  | ⟨[], offset⟩ => ⟨[], offset⟩
  | ⟨c :: rest, offset⟩ => ⟨rest, offset + c.utf8Size⟩

/-- Moves over the characters in front that have a property; only for ASCII properties, where a
character is one byte. -/
def skipAll (property : Char → Bool) (cursor : Cursor) : Cursor :=
  ⟨cursor.rest.dropWhile property,
    cursor.offset + (cursor.rest.takeWhile property).length⟩

end Cursor

/-- White space between tokens. -/
def isSpace (c : Char) : Bool := c = ' ' || c = '\n' || c = '\t' || c = '\r'

namespace Reader

def peek : Reader (Option Char) := fun cursor => .ok (cursor.rest.head?, cursor)

def next : Reader Unit := fun cursor => .ok ((), cursor.next)

def skipSpace : Reader Unit := fun cursor => .ok ((), cursor.skipAll isSpace)

/-- Takes the digits in front. -/
def digits : Reader (List Char) := fun cursor =>
  .ok (cursor.rest.takeWhile Char.isDigit, cursor.skipAll Char.isDigit)

/-- How many characters are ahead; loops that read at least one each time end within this bound. -/
def ahead : Reader Nat := fun cursor => .ok (cursor.rest.length, cursor)

/-- Stops at the present place. -/
def failHere {α : Type} (cause : Cause) : Reader α := fun cursor =>
  .error (.located cause cursor.offset)

/-- Stops at the next byte, which is looked at and not accepted. -/
def failNext {α : Type} (cause : Cause) : Reader α := fun cursor =>
  .error (.located cause (cursor.offset + 1))

/-- Stops for a reason that concerns the record around the present place. -/
def failUnplaced {α : Type} (cause : Cause) : Reader α := fun cursor =>
  .error (.unplaced cause cursor)

/-- Reads the letters of a literal behind its first one. -/
def letters : List Char → Reader Unit
  | [] => pure ()
  | expected :: rest => do
    match ← peek with
    | none => failHere (.unfinished .value)
    | some c =>
      if c = expected then
        next
        letters rest
      else failNext .expectedLiteral

/-- Reads a literal of which the first letter is in front. -/
def literal (name : String) : Reader Unit := do
  next
  letters (name.toList.drop 1)

/-- Reads a whole text with nothing but space behind it. -/
def whole {α : Type} (reader : Reader α) : Reader α := do
  let value ← reader
  skipSpace
  match ← peek with
  | none => pure value
  | some _ => failNext .trailingCharacters

/-- The value of a text. -/
def run {α : Type} (reader : Reader α) (text : List Char) : Except Failure α :=
  match reader.whole (Cursor.start text) with
  | .ok (value, _) => .ok value
  | .error failure => .error failure

end Reader
end AnimationKit.Json
