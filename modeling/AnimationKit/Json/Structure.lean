import AnimationKit.Json.Token

/-!
The steps between the parts of arrays and objects.
-/
namespace AnimationKit.Json.Reader

/-- Moves to the next item of an array; false in front of the closing bracket. -/
def nextItem (first : Bool) : Reader Bool := do
  skipSpace
  match ← peek with
  | none => failNext (.unfinished .list)
  | some c =>
    if c = ']' then pure false
    else if first then pure true
    else if c = ',' then
      next
      skipSpace
      match ← peek with
      | none => failNext (.unfinished .value)
      | some d => if d = ']' then failNext .trailingComma else pure true
    else failNext .expectedListEnd

/-- Moves to the next key of an object; false in front of the closing brace. -/
def nextKey (first : Bool) : Reader Bool := do
  skipSpace
  match ← peek with
  | none => failNext (.unfinished .object)
  | some c =>
    if c = '\x7d' then pure false
    else if first then
      if c = '"' then pure true else failNext .keyNotString
    else if c = ',' then
      next
      skipSpace
      match ← peek with
      | none => failNext (.unfinished .value)
      | some d =>
        if d = '"' then pure true
        else if d = '\x7d' then failNext .trailingComma
        else failNext .keyNotString
    else failNext .expectedObjectEnd

/-- Reads the colon behind a key. -/
def colon : Reader Unit := do
  skipSpace
  match ← peek with
  | none => failNext (.unfinished .object)
  | some c => if c = ':' then next else failNext .expectedColon

/-- Reads the items of an array and its closing bracket. -/
def items {α : Type} (item : Reader α) : Nat → Bool → Reader (List α)
  | 0, _ => failHere (.unfinished .list)
  | bound + 1, first => do
    if ← nextItem first then
      let value ← item
      let rest ← items item bound false
      pure (value :: rest)
    else
      next
      pure []

/-- Reads the members of an object and its closing brace. -/
def members {α : Type} (value : Reader α) : Nat → Bool → Reader (List (String × α))
  | 0, _ => failHere (.unfinished .object)
  | bound + 1, first => do
    if ← nextKey first then
      let key ← quotedString
      colon
      let member ← value
      let rest ← members value bound false
      pure ((key, member) :: rest)
    else
      next
      pure []

/-- Whether a character starts a number. -/
def startsNumber (c : Char) : Bool := c = '-' || c.isDigit

/-- What to do with the first character of each kind of value. -/
structure Cases (α : Type) where
  null : Reader α
  bool : Bool → Reader α
  number : Reader α
  text : Reader α
  array : Reader α
  object : Reader α

/-- Looks at the first character of a value. -/
def byFirst {α : Type} (cases : Cases α) : Reader α := do
  skipSpace
  match ← peek with
  | none => failNext (.unfinished .value)
  | some c =>
    if c = 'n' then cases.null
    else if c = 't' then cases.bool true
    else if c = 'f' then cases.bool false
    else if startsNumber c then cases.number
    else if c = '"' then cases.text
    else if c = '[' then cases.array
    else if c = '\x7b' then cases.object
    else failNext .expectedValue

/-- Reads `true` or `false`. -/
def boolLiteral (value : Bool) : Reader Unit := literal (if value then "true" else "false")

/-- Reads a value; inside it, arrays and objects may be nested to the given depth. -/
def value : Nat → Reader Value
  | 0 => byFirst (scalars (failNext .nestedTooDeep) (failNext .nestedTooDeep))
  | depth + 1 => byFirst (scalars
      (do next; let bound ← ahead; .array <$> items (value depth) (bound + 1) true)
      (do next; let bound ← ahead; .object <$> members (value depth) (bound + 1) true))
where
  scalars (array object : Reader Value) : Cases Value :=
    { null := do literal "null"; pure .null
      bool := fun b => do boolLiteral b; pure (.bool b)
      number := .number <$> number
      text := .text <$> quotedString
      array := array
      object := object }

end AnimationKit.Json.Reader
