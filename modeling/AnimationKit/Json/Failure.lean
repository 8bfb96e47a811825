import AnimationKit.Json.Value
import AnimationKit.Text.Quoted

/-!
Why a text is not the wanted JSON document, and where that was found.
-/
namespace AnimationKit.Json

/-- What the text ended in. -/
inductive Unfinished where
  | value
  | list
  | object
  | string

def Unfinished.describe : Unfinished → String
  | value => "a value"
  | list => "a list"
  | object => "an object"
  | string => "a string"

/-- What was found where something else was wanted. -/
inductive Found where
  | null
  | bool (value : Bool)
  | number (value : Number)
  | text (value : String)
  | sequence
  | map
  | bareVariant

def Found.describe : Found → String
  | null => "null"
  | bool value => "boolean `" ++ (if value then "true" else "false") ++ "`"
  | number (.whole n) => "integer `" ++ toString n ++ "`"
  | number (.fraction x) => "floating point `" ++ doubleText x ++ "`"
  | text value => "string " ++ Text.quoted value
  | sequence => "sequence"
  | map => "map"
  | bareVariant => "unit variant"

/-- What was wanted. -/
inductive Wanted where
  | number
  | text
  | unit
  | record (name : String)
  | variantRecord (path : String)
  | taggedRecord (name : String)
  | tag
  /-- A variant with a record in it, not a bare name. -/
  | recordVariant
  /-- A variant with one value in it, not a bare name. -/
  | valueVariant

def Wanted.describe : Wanted → String
  | number => "f64"
  | text => "a string"
  | unit => "unit"
  | record name => "struct " ++ name
  | variantRecord path => "struct variant " ++ path
  | taggedRecord name => "internally tagged enum " ++ name
  | tag => "variant identifier"
  | recordVariant => "struct variant"
  | valueVariant => "newtype variant"

inductive Cause where
  | unfinished (what : Unfinished)
  | expectedValue
  | expectedLiteral
  | expectedColon
  | expectedListEnd
  | expectedObjectEnd
  | keyNotString
  | trailingComma
  | trailingCharacters
  | invalidNumber
  | numberOutOfRange
  | controlCharacter
  | invalidEscape
  | loneSurrogate
  | unpairedSurrogate
  | nestedTooDeep
  | wrongType (found : Found) (wanted : Wanted)
  | missingField (name : String)
  | duplicateField (name : String)
  | wrongLength (length : Nat) (wanted : Wanted) (fields : Nat)
  /-- An array has items behind those that are taken from it. -/
  | extraItems (length taken : Nat)
  | unknownVariant (name : String) (known : List String)
  | noAlternative (name : String)
  /-- A value has the right type and is not accepted, with the message of its own rule. -/
  | rejected (message : String)

/-- Names as a message offers them. -/
def offer (known : List String) : String :=
  match known.map fun name => "`" ++ name ++ "`" with
  | [] => "there are no variants"
  | [one] => "expected " ++ one
  | [one, two] => "expected " ++ one ++ " or " ++ two
  | several => "expected one of " ++ ", ".intercalate several

/-- A number of items as a message gives it. -/
def elements (count : Nat) : String :=
  toString count ++ (if count = 1 then " element" else " elements")

def Cause.message : Cause → String
  | unfinished what => "EOF while parsing " ++ what.describe
  | expectedValue => "expected value"
  | expectedLiteral => "expected ident"
  | expectedColon => "expected `:`"
  | expectedListEnd => "expected `,` or `]`"
  | expectedObjectEnd => "expected `,` or `\x7d`"
  | keyNotString => "key must be a string"
  | trailingComma => "trailing comma"
  | trailingCharacters => "trailing characters"
  | invalidNumber => "invalid number"
  | numberOutOfRange => "number out of range"
  | controlCharacter =>
    "control character (\\u0000-\\u001F) found while parsing a string"
  | invalidEscape => "invalid escape"
  | loneSurrogate => "lone leading surrogate in hex escape"
  | unpairedSurrogate => "unexpected end of hex escape"
  | nestedTooDeep => "recursion limit exceeded"
  | wrongType found wanted => "invalid type: " ++ found.describe ++ ", expected " ++ wanted.describe
  | missingField name => "missing field `" ++ name ++ "`"
  | duplicateField name => "duplicate field `" ++ name ++ "`"
  | wrongLength length wanted fields =>
    "invalid length " ++ toString length ++ ", expected " ++ wanted.describe ++ " with " ++
      elements fields
  | extraItems length taken =>
    "invalid length " ++ toString length ++ ", expected " ++ elements taken ++ " in sequence"
  | unknownVariant name known => "unknown variant `" ++ name ++ "`, " ++ offer known
  | noAlternative name => "data did not match any variant of untagged enum " ++ name
  | rejected message => message

/-- A position in a text; columns count bytes, and the column is 0 right behind a line break. -/
structure Position where
  line : Nat
  column : Nat
deriving DecidableEq

/-- The position a number of bytes further on, or at the end if the text is shorter. -/
def Position.advance (position : Position) : List Char → Nat → Position
  | [], _ => position
  | _, 0 => position
  | c :: rest, bytes + 1 =>
    if c = '\n' then advance ⟨position.line + 1, 0⟩ rest bytes
    else advance ⟨position.line, position.column + min (bytes + 1) c.utf8Size⟩ rest
      (bytes + 1 - c.utf8Size)

def Position.ofOffset (text : List Char) (offset : Nat) : Position :=
  Position.advance ⟨1, 0⟩ text offset

/-- What is ahead in a text, and how many bytes have been read. -/
structure Cursor where
  rest : List Char
  offset : Nat
deriving DecidableEq

/-- A failure has the offset at which it was found. One that concerns a whole record gets it from
the innermost record around it, once that has tried to close. -/
inductive Failure where
  | located (cause : Cause) (offset : Nat)
  | unplaced (cause : Cause) (cursor : Cursor)

/-- What is wrong with a text. -/
def Failure.reason (text : List Char) : Failure → String
  | located cause offset =>
    let position := Position.ofOffset text offset
    cause.message ++ " at line " ++ toString position.line ++ " column " ++
      toString position.column
  | unplaced cause _ => cause.message

end AnimationKit.Json
