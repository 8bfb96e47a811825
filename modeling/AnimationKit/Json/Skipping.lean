import AnimationKit.Json.Structure

/-!
Values that nobody wants. Only their syntax is checked, less strictly than where a value is read:
numbers may have any size, surrogates may stand alone, and nesting has no limit.
-/
namespace AnimationKit.Json.Reader

def skipEscape : Reader Unit := do
  match ← peek with
  | none => failHere (.unfinished .string)
  | some c =>
    if c = 'u' then
      next
      let _ ← hexEscape
    else if (simpleEscape? c).isSome then next
    else failNext .invalidEscape

def skipStringRest : Nat → Reader Unit
  | 0 => failHere (.unfinished .string)
  | bound + 1 => do
    match ← peek with
    | none => failHere (.unfinished .string)
    | some c =>
      if c = '"' then next
      else if c = '\\' then
        next
        skipEscape
        skipStringRest bound
      else if c < ' ' then failHere .controlCharacter
      else
        next
        skipStringRest bound

def skipString : Reader Unit := do
  next
  let bound ← ahead
  skipStringRest (bound + 1)

def skipWholeDigits : Reader Unit := do
  match ← peek with
  | none => failHere .invalidNumber
  | some _ =>
    let _ ← wholeDigits

def skipFraction : Reader Unit := do
  match ← peek with
  | some '.' =>
    next
    let fraction ← digits
    if fraction = [] then failNext .invalidNumber else pure ()
  | _ => pure ()

def skipPower : Reader Unit := do
  match ← peek with
  | some mark =>
    if mark = 'e' ∨ mark = 'E' then
      next
      let _ ← powerSign
      match ← peek with
      | none => failHere .invalidNumber
      | some c =>
        if c.isDigit then
          let _ ← digits
        else failNext .invalidNumber
    else pure ()
  | none => pure ()

def skipNumber : Reader Unit := do
  match ← peek with
  | some '-' => next
  | _ => pure ()
  skipWholeDigits
  skipFraction
  skipPower

/-- Moves over what follows an item: a comma, or the closing bracket, behind which nothing more is
to be read. -/
def skipItemEnd (close : Char) (unfinished : Unfinished) (cause : Cause) : Reader Bool := do
  skipSpace
  match ← peek with
  | none => failNext (.unfinished unfinished)
  | some c =>
    if c = ',' then
      next
      pure true
    else if c = close then
      next
      pure false
    else failNext cause

def skipItems (item : Reader Unit) : Nat → Reader Unit
  | 0 => failHere (.unfinished .list)
  | bound + 1 => do
    item
    if ← skipItemEnd ']' .list .expectedListEnd then skipItems item bound else pure ()

def skipMember (value : Reader Unit) : Reader Unit := do
  skipSpace
  match ← peek with
  | none => failNext (.unfinished .object)
  | some c =>
    if c = '"' then
      skipString
      colon
      value
    else failNext .keyNotString

def skipMembers (value : Reader Unit) : Nat → Reader Unit
  | 0 => failHere (.unfinished .object)
  | bound + 1 => do
    skipMember value
    if ← skipItemEnd '\x7d' .object .expectedObjectEnd then skipMembers value bound else pure ()

/-- Moves over a bracket, and over the one that closes it if nothing is between them. -/
def skipOpening (close : Char) (unfinished : Unfinished) : Reader Bool := do
  next
  skipSpace
  match ← peek with
  | none => failNext (.unfinished unfinished)
  | some c =>
    if c = close then
      next
      pure false
    else pure true

/-- Skips a value of at most so many characters, which bounds its nesting and the number of parts
of each bracket. -/
def skipWithin : Nat → Reader Unit
  | 0 => failHere (.unfinished .value)
  | bound + 1 => byFirst
    { null := literal "null"
      bool := boolLiteral
      number := skipNumber
      text := skipString
      array := do
        if ← skipOpening ']' .list then
          skipItems (skipWithin bound) (bound + 1)
        else pure ()
      object := do
        if ← skipOpening '\x7d' .object then
          skipMembers (skipWithin bound) (bound + 1)
        else pure () }

/-- Skips a value. -/
def skip : Reader Unit := do skipWithin ((← ahead) + 1)

end AnimationKit.Json.Reader
