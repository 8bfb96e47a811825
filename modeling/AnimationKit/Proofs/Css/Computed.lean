import AnimationKit.Css
import AnimationKit.Proofs.Measure
import AnimationKit.Text.Split

/-! What a sheet comes to on an element, and when two sheets come to the same there. -/
namespace AnimationKit.Css

variable {property : String → Option String} {value : Binary64}

/-- The value on an element: references are replaced by custom properties or their fallbacks. -/
def Value.computed (property : String → Option String) : Value → Value
  | literal text => literal text
  | reference name fallback => literal ((property name).getD fallback)
  | product length factor => product (length.computed property) factor
  | call function argument => call function (argument.computed property)

def Declaration.computed (property : String → Option String) (declaration : Declaration) :
    Declaration :=
  { declaration with value := declaration.value.computed property }

def Step.computed (property : String → Option String) (step : Step) : Step :=
  { step with declarations := step.declarations.map (Declaration.computed property) }

def Rule.computed (property : String → Option String) (rule : Rule) : Rule :=
  { rule with
    duration := rule.duration.computed property
    easing := rule.easing.computed property
    delay := rule.delay.computed property }

def Block.computed (property : String → Option String) (block : Block) : Block :=
  { block with
    steps := block.steps.map (Step.computed property)
    rule := block.rule.computed property }

/-- The pixels of a length: `0`, or a number with its unit. -/
def pixelsOfText? (text : String) : Option ℚ :=
  if text = "0" then some 0
  else (Text.between? [] "px".toList text.toList).bind fun number =>
    ratOfText? (String.ofList number)

/-- The exact pixels of a value. -/
def Value.pixels? : Value → Option ℚ
  | literal text => pixelsOfText? text
  | product length factor => do
    let pixels ← length.pixels?
    let factor ← ratOfText? factor
    return pixels * factor
  | reference _ _ | call _ _ => none

/-- Two values look the same: they have one text, or they are one function of the same length. -/
inductive Value.Same : Value → Value → Prop
  | text {v w : Value} (h : v.render = w.render) : Same v w
  | length {function text : String} {argument : Value} {pixels : ℚ}
      (hargument : argument.pixels? = some pixels) (htext : pixelsOfText? text = some pixels) :
      Same (.call function argument) (.literal (function ++ "(" ++ text ++ ")"))

/-- Two steps at the same time, of the same properties, each with the same value. -/
structure Step.Same (exempt : Prop) (step other : Step) : Prop where
  percentage : step.percentage = other.percentage
  declarations : List.Forall₂ (fun d e => d.property = e.property ∧ (exempt ∨ d.value.Same e.value))
    step.declarations other.declarations

theorem Step.Same.imp {exempt exempt' : Prop} {step other : Step} (h : exempt → exempt')
    (hsame : step.Same exempt other) : step.Same exempt' other :=
  ⟨hsame.percentage, hsame.declarations.imp fun _ _ hd => ⟨hd.1, hd.2.imp_left h⟩⟩

theorem between?_suffix (chars suffix : List Char) :
    Text.between? [] suffix (chars ++ suffix) = some chars := by
  simp [Text.between?]

theorem pixelsOfText?_pixels (value : Binary64) :
    pixelsOfText? (Measure.pixels value) = some (Measure.decimal value).toRat := by
  have hne : Measure.pixels value ≠ "0" := by
    intro h
    have hlast := congrArg (fun text => text.toList.getLast?) h
    simp [Measure.pixels] at hlast
  rw [pixelsOfText?, if_neg hne, Measure.pixels, String.toList_append, between?_suffix,
    Option.bind_some, String.ofList_toList, Measure.ratOfText?_number]

theorem pixelsOfText?_length (value : Binary64) :
    pixelsOfText? (Measure.length value) = some (Measure.decimal value).toRat := by
  unfold Measure.length
  split
  · rename_i h
    rw [Measure.toRat_of_number_zero h]
    rfl
  · exact pixelsOfText?_pixels value

theorem pixels?_product {length : Value} {factor : String} {p q : ℚ}
    (hlength : length.pixels? = some p) (hfactor : ratOfText? factor = some q) :
    (Value.product length factor).pixels? = some (p * q) := by
  simp [Value.pixels?, hlength, hfactor]

end AnimationKit.Css
