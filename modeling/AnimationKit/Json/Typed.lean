import AnimationKit.Json.Skipping

/-!
Readers for values of a wanted type: numbers, strings, optional values, records, and names out of a
given list.
-/
namespace AnimationKit.Json

namespace Reader

/-- Reads what is there instead of the wanted thing and reports it. A scalar is read to its end, so
that what is wrong inside it comes first; a bracket is not read at all. -/
def wrongType {α : Type} (wanted : Wanted) : Reader α := byFirst
  { null := do literal "null"; failHere (.wrongType .null wanted)
    bool := fun b => do boolLiteral b; failHere (.wrongType (.bool b) wanted)
    number := do failHere (.wrongType (.number (← number)) wanted)
    text := do failHere (.wrongType (.text (← quotedString)) wanted)
    array := failHere (.wrongType .sequence wanted)
    object := failHere (.wrongType .map wanted) }

/-- Moves to a value and looks at its first character. -/
def firstOfValue : Reader Char := do
  skipSpace
  match ← peek with
  | none => failNext (.unfinished .value)
  | some c => pure c

/-- Reads any number as a double. -/
def double : Reader Binary64 := do
  if startsNumber (← firstOfValue) then return (← number).toBinary64 else wrongType .number

def textAs (wanted : Wanted) : Reader String := do
  if (← firstOfValue) = '"' then quotedString else wrongType wanted

def text : Reader String := textAs .text

def unit : Reader Unit := do
  if (← firstOfValue) = 'n' then literal "null" else wrongType .unit

/-- Reads `null` as an absent value. -/
def optional {α : Type} (reader : Reader α) : Reader (Option α) := do
  if (← firstOfValue) = 'n' then
    literal "null"
    pure none
  else some <$> reader

/-- Reads something up to its closing bracket, which is looked for after a failure too: a failure
without a place gets the one that is reached then. -/
def enclosed {α : Type} (inside : Reader α) (close : Reader Unit) (closeAttempt : Cursor → Cursor) :
    Reader α := fun cursor =>
  match inside cursor with
  | .ok (value, after) =>
    match close after with
    | .ok (_, closed) => .ok (value, closed)
    | .error failure => .error failure
  | .error (.unplaced cause place) => .error (.located cause (closeAttempt place).offset)
  | .error failure => .error failure

end Reader

namespace Cursor

def skipSpace (cursor : Cursor) : Cursor := cursor.skipAll isSpace

/-- Moves over one of these characters. -/
def overOne (accepted : List Char) (cursor : Cursor) : Cursor :=
  match cursor.rest with
  | c :: _ => if c ∈ accepted then cursor.next else cursor
  | [] => cursor

/-- How far closing an object gets. -/
def closeObject (cursor : Cursor) : Cursor := cursor.skipSpace.overOne ['\x7d']

/-- How far closing an array gets; a comma is taken for a trailing one. -/
def closeArray (cursor : Cursor) : Cursor :=
  let place := cursor.skipSpace
  match place.rest with
  | ',' :: _ => place.next.skipSpace
  | _ => place.overOne [']']

end Cursor

namespace Reader

/-- Reads the brace behind the last member that is wanted. -/
def closeObject : Reader Unit := do
  skipSpace
  match ← peek with
  | none => failNext (.unfinished .object)
  | some c =>
    if c = '\x7d' then next
    else if c = ',' then failNext .trailingComma
    else failNext .trailingCharacters

/-- Reads the bracket behind the last item that is wanted. -/
def closeArray : Reader Unit := do
  skipSpace
  match ← peek with
  | none => failNext (.unfinished .list)
  | some c =>
    if c = ']' then next
    else if c = ',' then
      next
      skipSpace
      match ← peek with
      | some ']' => failNext .trailingComma
      | _ => failNext .trailingCharacters
    else failNext .trailingCharacters

end Reader

/-- A field of a record of type `α`: reading it gives the change that it makes to the record. -/
structure Field (α : Type) where
  name : String
  required : Bool
  read : Reader (α → α)

/-- A record is an object with named fields, or an array of the fields in their order. -/
structure RecordShape (α : Type) where
  wanted : Wanted
  fields : List (Field α)

namespace RecordShape

variable {α : Type} (shape : RecordShape α)

/-- The first field that is required and was not there. -/
def missing? (seen : List String) : Option (Field α) :=
  shape.fields.find? fun field => field.required && !seen.contains field.name

/-- Reads the member whose key was just read, and gives the record and the fields seen so far. -/
def readMember (record : α) (seen : List String) (key : String) : Reader (α × List String) := do
  match shape.fields.find? fun field => field.name == key with
  | some field =>
    if seen.contains key then Reader.failUnplaced (.duplicateField key)
    else
      Reader.colon
      let change ← field.read
      pure (change record, key :: seen)
  | none =>
    Reader.colon
    Reader.skip
    pure (record, seen)

/-- Reads members up to the closing brace. -/
def readMembers : Nat → Bool → α → List String → Reader α
  | 0, _, _, _ => Reader.failHere (.unfinished .object)
  | bound + 1, first, record, seen => do
    if ← Reader.nextKey first then
      let key ← Reader.quotedString
      let (record, seen) ← shape.readMember record seen key
      readMembers bound false record seen
    else
      match shape.missing? seen with
      | some field => Reader.failUnplaced (.missingField field.name)
      | none => pure record

/-- Reads fields in their order up to the closing bracket. -/
def readItems (wanted : Wanted) (size : Nat) : List (Field α) → Nat → α → Reader α
  | [], _, record => pure record
  | field :: fields, index, record => do
    if ← Reader.nextItem (index == 0) then
      let change ← field.read
      readItems wanted size fields (index + 1) (change record)
    else if field.required then Reader.failUnplaced (.wrongLength index wanted size)
    else readItems wanted size fields index record

/-- Reads a record; fields that are not there stay as they are in the initial one. -/
def read (initial : α) : Reader α := do
  let first ← Reader.firstOfValue
  if first = '\x7b' then
    Reader.next
    let bound ← Reader.ahead
    Reader.enclosed (shape.readMembers (bound + 1) true initial []) Reader.closeObject
      Cursor.closeObject
  else if first = '[' then
    Reader.next
    Reader.enclosed (readItems shape.wanted shape.fields.length shape.fields 0 initial)
      Reader.closeArray Cursor.closeArray
  else Reader.wrongType shape.wanted

end RecordShape

namespace Reader

/-- Finds a name that was just read. -/
def chosen {α : Type} (known : List (String × α)) (name : String) : Reader α :=
  match known.lookup name with
  | some value => pure value
  | none => failHere (.unknownVariant name (known.map (·.1)))

/-- Reads the name and the colon in an object that is written for one variant. -/
def variantKey {α : Type} (known : List (String × α)) : Reader α := do
  skipSpace
  match ← peek with
  | none => failNext (.unfinished .object)
  | some c =>
    if c = '"' then
      let value ← chosen known (← quotedString)
      colon
      pure value
    else if c = '\x7d' then failNext .expectedValue
    else failNext .keyNotString

/-- Reads the brace behind the content of a variant. -/
def variantEnd : Reader Unit := do
  skipSpace
  match ← peek with
  | none => failHere (.unfinished .object)
  | some c => if c = '\x7d' then next else failHere .expectedValue

/-- Reads one of the known names, alone or as the key of `null`. -/
def name {α : Type} (known : List (String × α)) : Reader α := do
  let first ← firstOfValue
  if first = '"' then chosen known (← quotedString)
  else if first = '\x7b' then
    next
    let value ← variantKey known
    unit
    variantEnd
    pure value
  else failNext .expectedValue

/-- A variant with content, and what a bare name lacks. -/
structure Variant (α : Type) where
  lacking : Wanted
  content : Reader α

/-- Reads an object with the name of a variant as its key and the variant's content. -/
def variant {α : Type} (known : List (String × Variant α)) : Reader α := do
  let first ← firstOfValue
  if first = '"' then
    let chosenVariant ← chosen known (← quotedString)
    failUnplaced (.wrongType .bareVariant chosenVariant.lacking)
  else if first = '\x7b' then
    next
    let chosenVariant ← variantKey known
    let value ← chosenVariant.content
    variantEnd
    pure value
  else failNext .expectedValue

end Reader
end AnimationKit.Json
