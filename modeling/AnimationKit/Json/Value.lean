import AnimationKit.Binary64.Shortest

/-!
JSON values and their text, without blanks and with members in the order in which they are given.
-/
namespace AnimationKit.Json

/-- A number: a whole one as it was written, or any other as a double. -/
inductive Number where
  | whole (value : Int)
  | fraction (value : Binary64)
deriving DecidableEq

inductive Value where
  | null
  | bool (value : Bool)
  | number (value : Number)
  | text (value : String)
  | array (items : List Value)
  | object (members : List (String × Value))

/-- Doubles are positional from 1e-5 up to 1e16 and have a fraction there; beyond, they have an
exponent. -/
def layout : Decimal.Layout := ⟨some (-5, 16), ".0"⟩

/-- The text of a double; one that is not finite has none in JSON and becomes `null`. -/
def doubleText : Binary64 → String
  | .nan => "null"
  | .signed negative rank _ =>
    if rank = topRank then "null"
    else (Binary64.shortest .even negative rank).text layout

namespace Number

def toBinary64 : Number → Binary64
  | whole n => .ofInt n
  | fraction x => x

def render : Number → String
  | whole n => toString n
  | fraction x => doubleText x

end Number

/-- A control character by its number, with four lower case hexadecimal digits. -/
def controlEscape (c : Char) : List Char :=
  let digits := Nat.toDigits 16 c.toNat
  ['\\', 'u'] ++ List.replicate (4 - digits.length) '0' ++ digits

def escapedChar (c : Char) : List Char :=
  if c = '"' then ['\\', '"']
  else if c = '\\' then ['\\', '\\']
  else if c = '\x08' then ['\\', 'b']
  else if c = '\x0c' then ['\\', 'f']
  else if c = '\n' then ['\\', 'n']
  else if c = '\r' then ['\\', 'r']
  else if c = '\t' then ['\\', 't']
  else if c < ' ' then controlEscape c
  else [c]

/-- A string between quotes. Everything from the space on stands for itself, except the quote and
the backslash. -/
def quote (text : String) : String :=
  String.ofList ('"' :: text.toList.flatMap escapedChar ++ ['"'])

mutual

def Value.render : Value → String
  | .null => "null"
  | .bool value => if value then "true" else "false"
  | .number value => value.render
  | .text value => quote value
  | .array items => "[" ++ ",".intercalate (renderItems items) ++ "]"
  | .object members => "\x7b" ++ ",".intercalate (renderMembers members) ++ "\x7d"

def renderItems : List Value → List String
  | [] => []
  | item :: items => item.render :: renderItems items

def renderMembers : List (String × Value) → List String
  | [] => []
  | (key, value) :: members => (quote key ++ ":" ++ value.render) :: renderMembers members

end

/-- A double as a value. -/
def Value.double (x : Binary64) : Value :=
  if x.isFinite then .number (.fraction x) else .null

end AnimationKit.Json
