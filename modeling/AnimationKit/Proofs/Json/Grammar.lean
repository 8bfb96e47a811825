import AnimationKit.Json.Token
import AnimationKit.Proofs.Decimal.Grammar

/-!
The grammar of JSON: which texts write a value. A string may hold numeric escapes of any kind in it;
it spells a text only if those that are halves of surrogate pairs stand in pairs.
-/
namespace AnimationKit.Json

/-- Space between tokens. -/
def Blank (text : List Char) : Prop := ∀ c ∈ text, isSpace c = true

/-! Numbers. -/

/-- The digits before the point, where a zero stands alone. -/
structure WholePart (whole : List Char) : Prop where
  digits : Literal.Digits whole
  ne_nil : whole ≠ []
  zero : whole = ['0'] ∨ whole.head? ≠ some '0'

/-- A point and at least one digit behind it; or nothing. -/
inductive FractionPart : List Char → Prop
  | none : FractionPart []
  | point {digits : List Char} : Literal.Digits digits → digits ≠ [] → FractionPart ('.' :: digits)

inductive Numeral : List Char → Prop
  | unsigned {whole fraction power : List Char} {n : Int} : WholePart whole → FractionPart fraction →
      Literal.Exponent n power → Numeral (whole ++ (fraction ++ power))
  | minus {whole fraction power : List Char} {n : Int} : WholePart whole → FractionPart fraction →
      Literal.Exponent n power → Numeral ('-' :: (whole ++ (fraction ++ power)))

/-! Strings. -/

/-- Four hexadecimal digits and the number that they write. -/
structure Hex (digits : List Char) (n : Nat) : Prop where
  length : digits.length = 4
  number : hexNumber? digits = some n

/-- What stands between the quotes of a string. -/
inductive Letters : List Char → Prop
  | nil : Letters []
  | plain {c : Char} {letters : List Char} : c ≠ '"' → c ≠ '\\' → ¬ c < ' ' → Letters letters →
      Letters (c :: letters)
  | escape {mark c : Char} {letters : List Char} : simpleEscape? mark = some c → Letters letters →
      Letters ('\\' :: mark :: letters)
  | numeric {digits letters : List Char} {n : Nat} : Hex digits n → Letters letters →
      Letters ('\\' :: 'u' :: (digits ++ letters))

/-- What stands between the quotes of a string, and the text that it spells. -/
inductive Spells : List Char → List Char → Prop
  | nil : Spells [] []
  | plain {c : Char} {letters chars : List Char} : c ≠ '"' → c ≠ '\\' → ¬ c < ' ' →
      Spells letters chars → Spells (c :: letters) (c :: chars)
  | escape {mark c : Char} {letters chars : List Char} : simpleEscape? mark = some c →
      Spells letters chars → Spells ('\\' :: mark :: letters) (c :: chars)
  | numeric {digits letters chars : List Char} {n : Nat} : Hex digits n →
      isLeadingSurrogate n = false → isTrailingSurrogate n = false → Spells letters chars →
      Spells ('\\' :: 'u' :: (digits ++ letters)) (Char.ofNat n :: chars)
  | pair {digits digits' letters chars : List Char} {n m : Nat} : Hex digits n → Hex digits' m →
      isLeadingSurrogate n = true → isTrailingSurrogate m = true → Spells letters chars →
      Spells ('\\' :: 'u' :: (digits ++ '\\' :: 'u' :: (digits' ++ letters)))
        (surrogatePair n m :: chars)

/-- A string with its quotes. -/
def inQuotes (letters : List Char) : List Char := '"' :: (letters ++ ['"'])

/-! Values. -/

/-- A value inside brackets, with the space around it. -/
structure Item where
  front : List Char
  value : List Char
  behind : List Char

/-- A value of an object, with what stands between the quotes of its key, the space in front of the
key, and the space in front of the colon. -/
structure Member extends Item where
  before : List Char
  key : List Char
  gap : List Char

structure Item.Spaced (item : Item) : Prop where
  front : Blank item.front
  behind : Blank item.behind

structure Member.Spaced (member : Member) : Prop extends member.toItem.Spaced where
  before : Blank member.before
  gap : Blank member.gap

def Item.text (item : Item) : List Char := item.front ++ (item.value ++ item.behind)

/-- A key, with what stands between it and its value. -/
def Member.label (member : Member) : List Char :=
  inQuotes member.key ++ (member.gap ++ ':' :: member.front)

def Member.text (member : Member) : List Char :=
  member.before ++ (member.label ++ (member.value ++ member.behind))

/-- What stands between brackets: the parts with commas between them, or space. -/
def listing (space : List Char) : List (List Char) → List Char
  | [] => space
  | parts => [','].intercalate parts

def arrayText (space : List Char) (items : List Item) : List Char :=
  '[' :: (listing space (items.map Item.text) ++ [']'])

def objectText (space : List Char) (members : List Member) : List Char :=
  '\x7b' :: (listing space (members.map Member.text) ++ ['\x7d'])

/-- The texts of values. -/
inductive Written : List Char → Prop
  | null : Written "null".toList
  | bool (value : Bool) : Written (if value then "true" else "false").toList
  | number {text : List Char} : Numeral text → Written text
  | string {letters : List Char} : Letters letters → Written (inQuotes letters)
  | array {space : List Char} {items : List Item} : Blank space → (∀ item ∈ items, item.Spaced) →
      (∀ item ∈ items, Written item.value) → Written (arrayText space items)
  | object {space : List Char} {members : List Member} : Blank space →
      (∀ member ∈ members, member.Spaced) → (∀ member ∈ members, Letters member.key) →
      (∀ member ∈ members, Written member.value) → Written (objectText space members)

/-- A member of an object as the grammar has it. -/
structure Member.Grammatical (member : Member) : Prop where
  spaced : member.Spaced
  key : Letters member.key
  value : Written member.value

/-- Some member has a name and a value. -/
def Has (members : List Member) (name : String) (value : List Char) : Prop :=
  ∃ member ∈ members, Spells member.key name.toList ∧ member.value = value

/-- Every key spells a text. -/
def Named (members : List Member) : Prop := ∀ member ∈ members, ∃ chars, Spells member.key chars

/-- No two keys spell the same text. -/
def Distinct (members : List Member) : Prop :=
  members.Pairwise fun member other => ∀ chars, Spells member.key chars → ¬ Spells other.key chars

end AnimationKit.Json
