import AnimationKit.Json.Reader
import AnimationKit.Binary64.Reading

/-!
Strings and numbers.
-/
namespace AnimationKit.Json

def hexDigit? (c : Char) : Option Nat :=
  if c.isDigit then some (c.toNat - '0'.toNat)
  else if 'a' ≤ c ∧ c ≤ 'f' then some (c.toNat - 'a'.toNat + 10)
  else if 'A' ≤ c ∧ c ≤ 'F' then some (c.toNat - 'A'.toNat + 10)
  else none

/-- The number that four hexadecimal digits write. -/
def hexNumber? (chars : List Char) : Option Nat :=
  chars.foldlM (fun n c => (hexDigit? c).map (16 * n + ·)) 0

def utf8Length (chars : List Char) : Nat := (chars.map Char.utf8Size).foldl (· + ·) 0

/-- The character of an escape with one letter. -/
def simpleEscape? : Char → Option Char
  | '"' => some '"'
  | '\\' => some '\\'
  | '/' => some '/'
  | 'b' => some '\x08'
  | 'f' => some '\x0c'
  | 'n' => some '\n'
  | 'r' => some '\r'
  | 't' => some '\t'
  | _ => none

def isLeadingSurrogate (n : Nat) : Bool := 0xD800 ≤ n && n ≤ 0xDBFF

def isTrailingSurrogate (n : Nat) : Bool := 0xDC00 ≤ n && n ≤ 0xDFFF

def surrogatePair (leading trailing : Nat) : Char :=
  Char.ofNat (0x10000 + 0x400 * (leading - 0xD800) + (trailing - 0xDC00))

namespace Reader

/-- Reads the four digits of a numeric escape. They are taken as four bytes, so a text that ends
earlier is unfinished whatever it holds. -/
def hexEscape : Reader Nat := fun cursor =>
  let chars := cursor.rest.take 4
  if utf8Length chars < 4 then
    .error (.located (.unfinished .string) (cursor.offset + utf8Length chars))
  else
    match hexNumber? chars with
    | some n => .ok (n, ⟨cursor.rest.drop 4, cursor.offset + 4⟩)
    | none => .error (.located .invalidEscape (cursor.offset + 4))

/-- Reads a character that has to follow a leading surrogate. -/
def pairing (expected : Char) : Reader Unit := do
  match ← peek with
  | none => failHere (.unfinished .string)
  | some c => if c = expected then next else failNext .unpairedSurrogate

/-- Reads a character written by number, in two escapes if it lies beyond the first plane. -/
def numericEscape : Reader Char := do
  let n ← hexEscape
  if isTrailingSurrogate n then failHere .loneSurrogate
  else if isLeadingSurrogate n then
    pairing '\\'
    pairing 'u'
    let m ← hexEscape
    if isTrailingSurrogate m then pure (surrogatePair n m) else failHere .loneSurrogate
  else pure (Char.ofNat n)

/-- Reads an escape behind its backslash. -/
def escape : Reader Char := do
  match ← peek with
  | none => failHere (.unfinished .string)
  | some c =>
    if c = 'u' then
      next
      numericEscape
    else
      match simpleEscape? c with
      | some meaning =>
        next
        pure meaning
      | none => failNext .invalidEscape

/-- Reads the rest of a string behind the characters that were read before, last one first. -/
def stringRest : Nat → List Char → Reader String
  | 0, _ => failHere (.unfinished .string)
  | bound + 1, before => do
    match ← peek with
    | none => failHere (.unfinished .string)
    | some c =>
      if c = '"' then
        next
        pure (String.ofList before.reverse)
      else if c = '\\' then
        next
        let meaning ← escape
        stringRest bound (meaning :: before)
      else if c < ' ' then failNext .controlCharacter
      else
        next
        stringRest bound (c :: before)

/-- Reads a string of which the quote is in front. -/
def quotedString : Reader String := do
  next
  let bound ← ahead
  stringRest (bound + 1) []

/-- Reads the digits before the point: a zero, or digits that start with another one. -/
def wholeDigits : Reader (List Char) := do
  match ← peek with
  | none => failHere (.unfinished .value)
  | some c =>
    if c = '0' then
      next
      match ← peek with
      | some d => if d.isDigit then failNext .invalidNumber else pure ['0']
      | none => pure ['0']
    else if c.isDigit then digits
    else failNext .invalidNumber

/-- Reads the point and the digits behind it, if there is a point. -/
def fractionDigits : Reader (Option (List Char)) := do
  match ← peek with
  | some '.' =>
    next
    let fraction ← digits
    if fraction = [] then
      match ← peek with
      | none => failNext (.unfinished .value)
      | some _ => failNext .invalidNumber
    else pure (some fraction)
  | _ => pure none

/-- The largest power of ten that is looked at. -/
def maxPower : Nat := 2147483647

/-- How many digits it takes to write more than the largest power. -/
def digitsBeyondMaxPower? (value count : Nat) : List Char → Option Nat
  | [] => none
  | c :: rest =>
    let value := 10 * value + (c.toNat - '0'.toNat)
    if maxPower < value then some (count + 1) else digitsBeyondMaxPower? value (count + 1) rest

/-- Reads the sign of a power of ten. -/
def powerSign : Reader Bool := do
  match ← peek with
  | some '+' =>
    next
    pure false
  | some '-' =>
    next
    pure true
  | _ => pure false

/-- Reads the power of ten, if there is one. One beyond all bounds is an error as soon as that is
seen, unless the number is zero all the same. -/
def power (isZero : Bool) : Reader (Option Int) := do
  match ← peek with
  | some mark =>
    if mark = 'e' ∨ mark = 'E' then
      next
      let negative ← powerSign
      match ← peek with
      | none => failHere (.unfinished .value)
      | some c =>
        if c.isDigit then
          let ⟨_, offset⟩ ← get
          let powerDigits ← digits
          match digitsBeyondMaxPower? 0 0 powerDigits with
          | some count =>
            if negative || isZero then pure (some (if negative then -maxPower else maxPower))
            else throw (.located .numberOutOfRange (offset + count))
          | none =>
            let n : Int := natOfDigits powerDigits
            pure (some (if negative then -n else n))
        else failNext .invalidNumber
    else pure none
  | none => pure none

/-- A whole number as it was written, if it fits 64 bits; the negative zero does not. -/
def wholeNumber? (negative : Bool) (n : Nat) : Option Int :=
  if negative then
    if 0 < n ∧ n ≤ Nat.pow 2 63 then some (-n) else none
  else if n < Nat.pow 2 64 then some n
  else none

/-- Reads a number behind its sign. A decimal is taken for the double nearest to it. Packages that go
by powers of ten can be a last digit off here, so whoever needs a number back as it was says that it
is read again exactly (`Rereads`). -/
def unsigned (negative : Bool) : Reader Number := do
  let before ← wholeDigits
  let fraction ← fractionDigits
  let behind := fraction.getD []
  let coefficient := natOfDigits (before ++ behind)
  let exponent ← power (coefficient == 0)
  let isWhole := fraction.isNone && exponent.isNone
  match if isWhole then wholeNumber? negative coefficient else none with
  | some n => pure (.whole n)
  | none =>
    let value := Binary64.ofDecimal ⟨negative, coefficient, exponent.getD 0 - behind.length⟩
    if value.isFinite then pure (.fraction value) else failHere .numberOutOfRange

/-- Reads a number of which the sign or the first digit is in front. -/
def number : Reader Number := do
  match ← peek with
  | some '-' =>
    next
    unsigned true
  | _ => unsigned false

end Reader
end AnimationKit.Json
