import AnimationKit.Documents.Error
import AnimationKit.Proofs.Documents.Saving
import AnimationKit.Proofs.Json.Rereading

/-!
Errors as documents. An error is written as an object with its name as the only key, and read with
each of its numbers as that is read from its own text. A number that is not finite is written as
`null`, which is no number to the reader, so an error that carries one is lost.
-/
namespace AnimationKit

open Json

namespace Json

variable {α : Type} {ends : List Char → Prop} {behind : List Char} {outcome : Option α}

namespace Reader

/-! Variants. -/

section variants

variable {known : List (String × Variant α)} {selected : Variant α} {name : String}
  {content : Value} {value : α}

theorem toList_variant (name : String) (content : Value) :
    (Value.object [(name, content)]).render.toList =
      '\x7b' :: (((quote name).toList ++ [':']) ++ (content.render.toList ++ ['\x7d'])) := by
  rw [toList_object]
  simp [membersText]

theorem reads_variantKey (h : known.lookup name = some selected) :
    Reads (variantKey known) ((quote name).toList ++ [':']) selected behind := by
  have hchosen : chosen known name = pure selected := by rw [chosen, h]
  have hkeyed : Reads (do
      let name ← quotedString
      let value ← chosen known name
      colon
      pure value) ((quote name).toList ++ [':']) selected behind := by
    apply Reads.bind (reads_quote name)
    rw [hchosen, pure_bind]
    exact Reads.bind_last reads_colon (Reads.pure _ _)
  rw [quote, String.toList_ofList] at hkeyed ⊢
  exact skipSpace_bind (forall_head? (by decide)) (peek_bind hkeyed)

theorem reads_variantEnd : Reads variantEnd ['\x7d'] () behind :=
  skipSpace_bind (forall_head? (by decide)) (peek_bind reads_next)

theorem reads_variant (h : known.lookup name = some selected)
    (hcontent : Reads selected.content content.render.toList value ('\x7d' :: behind)) :
    Reads (variant known) (Value.object [(name, content)]).render.toList value behind := by
  rw [toList_variant]
  apply firstOfValue_bind rfl (by decide)
  apply next_bind
  apply Reads.bind (reads_variantKey h)
  apply Reads.bind hcontent
  exact Reads.bind_last reads_variantEnd (Reads.pure _ _)

theorem refuses_variant (h : known.lookup name = some selected)
    (hcontent : Refuses selected.content (content.render.toList ++ '\x7d' :: behind)) :
    Refuses (variant known) ((Value.object [(name, content)]).render.toList ++ behind) := by
  rw [toList_variant, List.cons_append, List.append_assoc, List.append_assoc content.render.toList]
  apply Refuses.of_reads_nil (reads_firstOfValue (by decide) _)
  rw [if_neg (by decide), if_pos rfl]
  apply Refuses.next_bind
  apply Refuses.of_reads (reads_variantKey h)
  exact .bind hcontent

/-- A variant is what its content is. -/
theorem gets_variant (h : known.lookup name = some selected)
    (hcontent : Gets EndsNumber selected.content content.render.toList outcome) :
    Gets ends (variant known) (Value.object [(name, content)]).render.toList outcome := by
  have hend (behind : List Char) : EndsNumber ('\x7d' :: behind) := forall_head? (by decide)
  cases outcome with
  | some value => exact fun behind _ => reads_variant h (hcontent _ (hend behind))
  | none => exact fun behind _ => refuses_variant h (hcontent _ (hend behind))

end variants
end Reader

/-! Records of one field. -/

namespace RecordShape

/-- A record that is nothing but the value of one field. -/
def ofField (wanted : Wanted) (name : String) (reader : Reader α) : RecordShape α :=
  ⟨wanted, [⟨name, true, do let value ← reader; pure fun _ => value⟩]⟩

variable {wanted : Wanted} {name : String} {reader : Reader α} {initial : α} {content : Value}

theorem find?_ofField (wanted : Wanted) (name : String) (reader : Reader α) :
    (ofField wanted name reader).fields.find? (fun field => field.name == name) =
      some ⟨name, true, do let value ← reader; pure fun _ => value⟩ := by
  simp [ofField]

theorem gets_ofField (h : Gets EndsNumber reader content.render.toList outcome) :
    Gets ends ((ofField wanted name reader).read initial)
      (Value.object [(name, content)]).render.toList outcome := by
  have hfind := find?_ofField wanted name reader
  cases outcome with
  | some value =>
    have hstores : (ofField wanted name reader).Stores (name, content) fun _ => value :=
      ⟨_, hfind, fun behind hend => Reads.bind_last (h behind hend) (Reads.pure _ _)⟩
    exact fun _ _ => reads_record initial (.cons hstores .nil) (by simp) (by simp [ofField])
  | none =>
    have hrejects : (ofField wanted name reader).Rejects (name, content) :=
      ⟨_, hfind, fun behind hend => .bind (h behind hend)⟩
    exact fun behind _ => refuses_record initial .nil hrejects behind

end RecordShape

theorem gets_text (text : String) :
    Gets ends Reader.text (Value.text text).render.toList (some text) :=
  fun _ _ => Reader.reads_text text

end Json

/-! Errors in configs. -/

namespace ConfigError

variable {error : ConfigError} {ends : List Char → Prop}

/-- The numbers that an error carries. -/
def numbers : ConfigError → List Binary64
  | nonPositiveDuration d | negativeDelay d | nonPositiveScale d => [d]
  | opacityOutOfRange a b => [a, b]
  | nonFinite _ | invalidEasing _ | unknownFormat _ | malformed _ => []

/-- The error with each number as it is read from its own text, if each is read. -/
def reread? : ConfigError → Option ConfigError
  | nonPositiveDuration d => (Json.reread? d).map nonPositiveDuration
  | negativeDelay d => (Json.reread? d).map negativeDelay
  | opacityOutOfRange a b =>
    (Json.reread? a).bind fun a => (Json.reread? b).map fun b => opacityOutOfRange a b
  | nonPositiveScale s => (Json.reread? s).map nonPositiveScale
  | error => some error

/-- Content with the number or the text of a variant is read as that variant. -/
theorem gets_single {α : Type} {variant field : String} {initial : α} {reader : Reader α}
    {build : α → ConfigError} {content : Value} {outcome : Option α}
    (hknown : variants.lookup variant = some (single variant field initial reader build).2)
    (h : Gets EndsNumber reader content.render.toList outcome) :
    Gets ends read (Value.object [(variant, .object [(field, content)])]).render.toList
      (outcome.map build) :=
  Reader.gets_variant hknown (.map (RecordShape.gets_ofField h))

/-- The bounds of an opacity are the fields of a span. -/
def boundsShape : RecordShape Span :=
  { Span.shape with wanted := .variantRecord "ConfigError::OpacityOutOfRange" }

theorem gets_bounds (a b : Binary64) :
    Gets ends (boundsShape.read ⟨.zero, .zero⟩)
      (Value.object [("start", .double a), ("end", .double b)]).render.toList
      ((Json.reread? a).bind fun a => (Json.reread? b).map fun b => ⟨a, b⟩) := by
  cases ha : Json.reread? a with
  | none =>
    have hstart : boundsShape.Rejects ("start", .double a) :=
      RecordShape.rejects_double ⟨_, _, rfl⟩ ha
    exact fun behind _ => RecordShape.refuses_record _ .nil hstart behind
  | some a' =>
    have hstart : boundsShape.Stores ("start", .double a) fun span => { span with start := a' } :=
      RecordShape.stores_double ⟨_, ⟨_, rfl⟩, rfl⟩ ha
    cases hb : Json.reread? b with
    | none =>
      have hstop : boundsShape.Rejects ("end", .double b) :=
        RecordShape.rejects_double ⟨_, _, rfl⟩ hb
      exact fun behind _ => RecordShape.refuses_record _ (.cons hstart .nil) hstop behind
    | some b' =>
      have hstop : boundsShape.Stores ("end", .double b) fun span => { span with stop := b' } :=
        RecordShape.stores_double ⟨_, ⟨_, rfl⟩, rfl⟩ hb
      exact fun _ _ => RecordShape.reads_record _ (.cons hstart (.cons hstop .nil)) (by simp)
        (by simp [boundsShape, Span.shape])

theorem gets_opacity (a b : Binary64) :
    Gets ends read (opacityOutOfRange a b).toJson.render.toList
      (opacityOutOfRange a b).reread? := by
  have hcontent : Gets EndsNumber opacityVariant.2.content _ _ := (gets_bounds a b).map
  have hmap : ((Json.reread? a).bind fun a => (Json.reread? b).map fun b => (⟨a, b⟩ : Span)).map
      (fun span => opacityOutOfRange span.start span.stop) = (opacityOutOfRange a b).reread? := by
    cases ha : Json.reread? a <;> cases hb : Json.reread? b <;> simp [reread?, ha, hb]
  rw [← hmap]
  exact Reader.gets_variant rfl hcontent

/-- An error is read with its numbers as they are read. -/
theorem gets_read (error : ConfigError) :
    Gets ends read error.toJson.render.toList error.reread? := by
  cases error with
  | nonPositiveDuration d => exact gets_single rfl (Reader.gets_double d)
  | negativeDelay d => exact gets_single rfl (Reader.gets_double d)
  | opacityOutOfRange a b => exact gets_opacity a b
  | nonPositiveScale s => exact gets_single rfl (Reader.gets_double s)
  | nonFinite field => exact gets_single rfl (gets_text field)
  | invalidEasing text => exact gets_single rfl (gets_text text)
  | unknownFormat name => exact gets_single rfl (gets_text name)
  | malformed reason => exact gets_single rfl (gets_text reason)

theorem reread?_eq_some_self : error.reread? = some error ↔ ∀ x ∈ error.numbers, Rereads x := by
  cases error <;> simp [reread?, numbers, Rereads, Option.bind_eq_some_iff]

theorem reread?_eq_none {x : Binary64} (hx : x ∈ error.numbers) (h : Json.reread? x = none) :
    error.reread? = none := by
  cases error with
  | nonPositiveDuration | negativeDelay | nonPositiveScale =>
    obtain rfl := List.mem_singleton.mp hx
    simp [reread?, h]
  | opacityOutOfRange a b =>
    rcases List.mem_cons.mp hx with rfl | hx
    · simp [reread?, h]
    · obtain rfl := List.mem_singleton.mp hx
      cases ha : Json.reread? a <;> simp [reread?, ha, h]
  | nonFinite | invalidEasing | unknownFormat | malformed => cases hx

end ConfigError

/-! Errors of animations. -/

namespace AnimationError

variable {error : AnimationError} {ends : List Char → Prop}

/-- The numbers that an error carries. -/
def numbers : AnimationError → List Binary64
  | unsupportedKind _ => []
  | invalidConfig cause => cause.numbers

def reread? : AnimationError → Option AnimationError
  | unsupportedKind name => some (unsupportedKind name)
  | invalidConfig cause => cause.reread?.map invalidConfig

theorem gets_read (error : AnimationError) :
    Gets ends (Reader.variant variants) error.toJson.render.toList error.reread? := by
  cases error with
  | unsupportedKind name =>
    have hname : Gets EndsNumber (kindShape.read "") _ (some name) :=
      RecordShape.gets_ofField (gets_text name)
    exact Reader.gets_variant rfl hname.map
  | invalidConfig cause => exact Reader.gets_variant rfl (.map cause.gets_read)

theorem reread?_eq_some_self : error.reread? = some error ↔ ∀ x ∈ error.numbers, Rereads x := by
  cases error with
  | unsupportedKind name => simp [reread?, numbers]
  | invalidConfig cause => simp [reread?, numbers, ConfigError.reread?_eq_some_self]

theorem reread?_eq_none {x : Binary64} (hx : x ∈ error.numbers) (h : Json.reread? x = none) :
    error.reread? = none := by
  cases error with
  | unsupportedKind name => cases hx
  | invalidConfig cause => rw [reread?, ConfigError.reread?_eq_none hx h, Option.map_none]

end AnimationError

/-! Documents of errors. -/

/-- The document of an error is read as that error just if each of its numbers is read back from its
own text. With a number that is not finite it is no document of an error. -/
structure ComesBack {α : Type} (ofJson : String → Except ConfigError α) (document : Value)
    (error : α) (numbers : List Binary64) : Prop where
  same_iff : ofJson document.render = .ok error ↔ ∀ x ∈ numbers, Rereads x
  lost : (∃ x ∈ numbers, x.isFinite = false) →
    ∃ reason, ofJson document.render = .error (.malformed reason)

theorem comesBack_of_gets {α : Type} {reader : Reader α} {document : Value} {error : α}
    {numbers : List Binary64} {outcome : Option α}
    (h : Gets (fun _ => True) reader document.render.toList outcome)
    (hsame : outcome = some error ↔ ∀ x ∈ numbers, Rereads x)
    (hlost : ∀ x ∈ numbers, reread? x = none → outcome = none) :
    ComesBack (readDocument reader) document error numbers := by
  constructor
  · rw [← hsame]
    cases outcome with
    | some value => simp [readDocument_of_reads (h [] trivial)]
    | none =>
      have hrefuses : Refuses reader document.render.toList := by
        simpa using h [] trivial
      obtain ⟨reason, hreason⟩ := readDocument_of_refuses hrefuses
      simp [hreason]
  · rintro ⟨x, hx, hinfinite⟩
    obtain rfl := hlost x hx (reread?_of_not_finite hinfinite)
    exact readDocument_of_refuses (by simpa using h [] trivial)

theorem ConfigError.comesBack (error : ConfigError) :
    ComesBack ConfigError.ofJson error.toJson error error.numbers :=
  comesBack_of_gets error.gets_read reread?_eq_some_self fun _ hx => reread?_eq_none hx

theorem AnimationError.comesBack (error : AnimationError) :
    ComesBack AnimationError.ofJson error.toJson error error.numbers :=
  comesBack_of_gets error.gets_read reread?_eq_some_self fun _ hx => reread?_eq_none hx

/-- What is reported for a config comes back from its document just if all numbers that it carries
come back from theirs: always if it names a field, a kind or a text, and never if it carries an
infinite duration, delay, bound or factor. -/
theorem errors_come_back (config : Config) :
    (∀ cause, config.validate = .error cause →
      ComesBack ConfigError.ofJson cause.toJson cause cause.numbers) ∧
    ∀ error, Animation.ofConfig config = .error error →
      ComesBack AnimationError.ofJson error.toJson error error.numbers :=
  ⟨fun cause _ => cause.comesBack, fun error _ => error.comesBack⟩

/-- A fade that takes this long. -/
def lasting (duration : Binary64) : Config := { Config.default with duration }

theorem lasting_closed :
    (lasting (Binary64.ofNat 1).neg).validate =
      .error (.nonPositiveDuration (Binary64.ofNat 1).neg) ∧
    Animation.ofConfig (lasting (Binary64.ofNat 1).neg) =
      .error (.invalidConfig (.nonPositiveDuration (Binary64.ofNat 1).neg)) ∧
    (Binary64.ofNat 1).neg.isFinite = true ∧
    Animation.ofConfig (lasting (.infinity false)) =
      .error (.invalidConfig (.nonPositiveDuration (.infinity false))) ∧
    (AnimationError.invalidConfig (.nonPositiveDuration (.infinity false))).toJson.render =
      "\x7b\"InvalidConfig\":\x7b\"NonPositiveDuration\":\x7b\"duration\":null\x7d\x7d\x7d" := by
  decide +kernel

theorem errors_come_back_minusOne :
    (∃ cause, (lasting (Binary64.ofNat 1).neg).validate = .error cause ∧
      ConfigError.ofJson cause.toJson.render = .ok cause) ∧
    ∃ error, Animation.ofConfig (lasting (Binary64.ofNat 1).neg) = .error error ∧
      AnimationError.ofJson error.toJson.render = .ok error := by
  obtain ⟨hcause, herror, hfinite, -⟩ := lasting_closed
  obtain ⟨hcauses, herrors⟩ := errors_come_back (lasting (Binary64.ofNat 1).neg)
  have hnumbers : ∀ x ∈ [(Binary64.ofNat 1).neg], Rereads x :=
    List.forall_mem_singleton.mpr (rereads_of_finite hfinite)
  exact ⟨⟨_, hcause, (hcauses _ hcause).same_iff.mpr hnumbers⟩,
    ⟨_, herror, (herrors _ herror).same_iff.mpr hnumbers⟩⟩

/-- The error of an infinite duration is written with `null` for it, and is not read again. -/
theorem errors_lost_endless :
    ∃ error reason, Animation.ofConfig (lasting (.infinity false)) = .error error ∧
      error = .invalidConfig (.nonPositiveDuration (.infinity false)) ∧
      error.toJson.render =
        "\x7b\"InvalidConfig\":\x7b\"NonPositiveDuration\":\x7b\"duration\":null\x7d\x7d\x7d" ∧
      AnimationError.ofJson error.toJson.render = .error (.malformed reason) := by
  obtain ⟨-, -, -, herror, htext⟩ := lasting_closed
  have hinfinite : (Binary64.infinity false).isFinite = false := by
    simp [Binary64.infinity, Binary64.isFinite]
  obtain ⟨reason, hlost⟩ :=
    (AnimationError.invalidConfig (.nonPositiveDuration (.infinity false))).comesBack.lost
      ⟨.infinity false, List.mem_singleton.mpr rfl, hinfinite⟩
  exact ⟨_, reason, herror, rfl, htext, hlost⟩

end AnimationKit
