import AnimationKit.Proofs.Documents.Saving
import AnimationKit.Proofs.Json.Filling

/-!
The fields of a config: each takes or refuses any value, and one that takes its value assigns it to
the part of the config that has its name. An optional field takes `null` for an absent value.
-/
namespace AnimationKit

open Json

variable {α β : Type} {reader : Reader α} {next : α → Reader β} {text text' number object : List Char}
  {value : α}

namespace Json

theorem Takes.unique {value' : α} (h : Takes EndsNumber reader text value)
    (h' : Takes EndsNumber reader text value') : value = value' :=
  (h [] endsNumber_nil).value_eq (h' [] endsNumber_nil)

theorem Takes.not_denies (h : Takes EndsNumber reader text value) : ¬ Denies EndsNumber reader text :=
  fun hdenies => (h [] endsNumber_nil).not_refuses (hdenies [] endsNumber_nil)

theorem Gives.of_takes {property : α → Prop} (h : Gives reader property)
    (htakes : Takes EndsNumber reader text value) : property value := by
  obtain ⟨_, hread⟩ := htakes [] endsNumber_nil 0
  exact h.of_ok hread

/-- A reader does not tell two texts apart: it takes both as the same value, or refuses both. -/
def Agreed (reader : Reader α) (text text' : List Char) : Prop :=
  (∃ value, Takes EndsNumber reader text value ∧ Takes EndsNumber reader text' value) ∨
    (Denies EndsNumber reader text ∧ Denies EndsNumber reader text')

namespace Agreed

theorem takes_iff (h : Agreed reader text text') (value : α) :
    Takes EndsNumber reader text value ↔ Takes EndsNumber reader text' value := by
  rcases h with ⟨value', htakes, htakes'⟩ | ⟨hdenies, hdenies'⟩
  · constructor
    · intro h
      rwa [h.unique htakes]
    · intro h
      rwa [h.unique htakes']
  · exact ⟨fun h => (h.not_denies hdenies).elim, fun h => (h.not_denies hdenies').elim⟩

theorem bind_last (h : Agreed reader text text')
    (hnext : ∀ value, Settled EndsNumber (next value) []) : Agreed (reader >>= next) text text' := by
  rcases h with ⟨value, htakes, htakes'⟩ | ⟨hdenies, hdenies'⟩
  · rcases hnext value with ⟨result, hresult⟩ | hnext
    · exact .inl ⟨result, htakes.bind_last hresult, htakes'.bind_last hresult⟩
    · exact .inr ⟨fun _ hend => .of_reads (htakes _ hend) (hnext _ hend),
        fun _ hend => .of_reads (htakes' _ hend) (hnext _ hend)⟩
  · exact .inr ⟨fun _ hend => .bind (hdenies _ hend), fun _ hend => .bind (hdenies' _ hend)⟩

end Agreed

/-- A field that gives what it read to a change of the record. -/
theorem settles_field {f : α → β → β} (name : String) (required : Bool) (hskips : SkipsSpace reader)
    (hsettled : ∀ {text}, Written text → Settled EndsNumber reader text) :
    Field.Settles ⟨name, required, do let value ← reader; pure (f value)⟩ where
  skips := hskips.bind
  settled h := (hsettled h).bind_last fun _ => .pure _

end Json

/-! The values of fields. -/

namespace Span

theorem settles_fields : ∀ field ∈ shape.fields, field.Settles :=
  List.forall_mem_cons.mpr ⟨settles_field _ _ Reader.skipsSpace_double Reader.settled_double,
    List.forall_mem_singleton.mpr
      (settles_field _ _ Reader.skipsSpace_double Reader.settled_double)⟩

theorem settled_read (h : Written text) : Settled EndsNumber read text :=
  RecordShape.settled_record settles_fields _ h

end Span

theorem settled_angles (value : Value) : Settled EndsNumber (match anglesOf? value with
    | some span => pure span
    | none => Reader.failUnplaced (.noAlternative "RawDegrees")) [] := by
  split
  · exact .pure _
  · exact .inr fun _ _ => .failUnplaced

theorem settled_readAngles (h : Written text) : Settled EndsNumber readAngles text :=
  (Reader.settled_value h _).bind_last settled_angles

theorem Easing.settled_read (h : Written text) : Settled EndsNumber Easing.read text := by
  refine (Reader.settled_text h).bind_last fun value => ?_
  split
  · exact .pure _
  · exact .inr fun _ _ => .failUnplaced

theorem Easing.skipsSpace_read : SkipsSpace Easing.read := Reader.skipsSpace_text.bind

/-- Any field of a config takes or refuses any value. -/
theorem Config.settles_fields : ∀ field ∈ Config.shape.fields, field.Settles := by
  have hdouble {text : List Char} (h : Written text) :
      Settled EndsNumber (Reader.optional Reader.double) text :=
    Reader.settled_optional h (Reader.settled_double h)
  have hspan {text : List Char} (h : Written text) :
      Settled EndsNumber (Reader.optional Span.read) text :=
    Reader.settled_optional h (Span.settled_read h)
  have haxis {text : List Char} (h : Written text) :
      Settled EndsNumber (Reader.optional (Reader.name Axis.named)) text :=
    Reader.settled_optional h (Reader.settled_name h)
  have hangles {text : List Char} (h : Written text) :
      Settled EndsNumber (Reader.optional readAngles) text :=
    Reader.settled_optional h (settled_readAngles h)
  simp only [shape, List.forall_mem_cons]
  exact ⟨settles_field _ _ Reader.skipsSpace_text Reader.settled_text,
    settles_field _ _ Reader.skipsSpace_double Reader.settled_double,
    settles_field _ _ Reader.skipsSpace_double Reader.settled_double,
    settles_field _ _ Easing.skipsSpace_read Easing.settled_read,
    settles_field _ _ Reader.skipsSpace_optional hspan,
    settles_field _ _ Reader.skipsSpace_optional hdouble,
    settles_field _ _ Reader.skipsSpace_optional haxis,
    settles_field _ _ Reader.skipsSpace_optional hdouble,
    settles_field _ _ Reader.skipsSpace_optional hangles, List.forall_mem_nil _⟩

/-! What the fields do to a config. -/

/-- A value for the part of a config that a field has the name of. -/
inductive Assignment where
  | kind (kind : Kind)
  | duration (seconds : Binary64)
  | delay (seconds : Binary64)
  | easing (easing : Easing)
  | opacity (span : Option Span)
  | distance (pixels : Option Binary64)
  | axis (axis : Option Axis)
  | scale (factor : Option Binary64)
  | degrees (span : Option Span)

namespace Assignment

def field : Assignment → String
  | kind _ => "type"
  | duration _ => "duration"
  | delay _ => "delay"
  | easing _ => "easing"
  | opacity _ => "opacity"
  | distance _ => "distance"
  | axis _ => "axis"
  | scale _ => "scale"
  | degrees _ => "degrees"

def apply : Assignment → Config → Config
  | kind value, config => { config with kind := value }
  | duration value, config => { config with duration := value }
  | delay value, config => { config with delay := value }
  | easing value, config => { config with easing := value }
  | opacity value, config => { config with opacity := value }
  | distance value, config => { config with distance := value }
  | axis value, config => { config with axis := value }
  | scale value, config => { config with scale := value }
  | degrees value, config => { config with degrees := value }

variable {a b : Assignment} {config config' : Config}

/-- The config has the value already. -/
def HeldBy (a : Assignment) (config : Config) : Prop := a.apply config = config

theorem heldBy_apply (a : Assignment) (config : Config) : a.HeldBy (a.apply config) := by
  cases a <;> rfl

/-- Other fields leave the value alone. -/
theorem HeldBy.apply (h : a.HeldBy config) (hne : a.field ≠ b.field) : a.HeldBy (b.apply config) := by
  have hcomm : a.apply (b.apply config) = b.apply (a.apply config) := by
    cases a <;> cases b <;> first | rfl | exact (hne rfl).elim
  rw [HeldBy, hcomm, h]

/-- What a field has no part in is the same under any two of its values. -/
theorem part_eq {β : Type} {part : Config → β} {name : String}
    (hpart : ∀ (a : Assignment) (c c' : Config), a.field = name → part (a.apply c) = part (a.apply c'))
    (h : ∃ a : Assignment, a.field = name ∧ a.HeldBy config ∧ a.HeldBy config') :
    part config = part config' := by
  obtain ⟨a, hfield, hheld, hheld'⟩ := h
  calc part config = part (a.apply config) := by rw [hheld]
    _ = part (a.apply config') := hpart a _ _ hfield
    _ = part config' := by rw [hheld']

/-- Configs that hold the same value for each field are the same. -/
theorem eq_of_heldBy (h : ∀ field ∈ Config.shape.fields,
    ∃ a : Assignment, a.field = field.name ∧ a.HeldBy config ∧ a.HeldBy config') :
    config = config' := by
  simp only [Config.shape, List.forall_mem_cons] at h
  obtain ⟨hkind, hduration, hdelay, heasing, hopacity, hdistance, haxis, hscale, hdegrees, -⟩ := h
  have hparts : config.kind = config'.kind ∧ config.duration = config'.duration ∧
      config.delay = config'.delay ∧ config.easing = config'.easing ∧
      config.opacity = config'.opacity ∧ config.distance = config'.distance ∧
      config.axis = config'.axis ∧ config.scale = config'.scale ∧
      config.degrees = config'.degrees := by
    refine ⟨part_eq ?_ hkind, part_eq ?_ hduration, part_eq ?_ hdelay, part_eq ?_ heasing,
      part_eq ?_ hopacity, part_eq ?_ hdistance, part_eq ?_ haxis, part_eq ?_ hscale,
      part_eq ?_ hdegrees⟩ <;>
    · intro a _ _ hfield
      cases a <;> first | rfl | simp [field] at hfield
  cases config
  cases config'
  simpa using hparts

end Assignment

namespace Config

theorem gives_assignment : ∀ field ∈ shape.fields, Gives field.read fun change =>
    ∃ a : Assignment, a.field = field.name ∧ change = a.apply := by
  simp only [shape, List.forall_mem_cons]
  exact ⟨Gives.bind_any fun name => Gives.pure ⟨.kind (.ofName name), rfl, rfl⟩,
    Gives.bind_any fun x => Gives.pure ⟨.duration x, rfl, rfl⟩,
    Gives.bind_any fun x => Gives.pure ⟨.delay x, rfl, rfl⟩,
    Gives.bind_any fun easing => Gives.pure ⟨.easing easing, rfl, rfl⟩,
    Gives.bind_any fun span => Gives.pure ⟨.opacity span, rfl, rfl⟩,
    Gives.bind_any fun x => Gives.pure ⟨.distance x, rfl, rfl⟩,
    Gives.bind_any fun axis => Gives.pure ⟨.axis axis, rfl, rfl⟩,
    Gives.bind_any fun x => Gives.pure ⟨.scale x, rfl, rfl⟩,
    Gives.bind_any fun span => Gives.pure ⟨.degrees span, rfl, rfl⟩, List.forall_mem_nil _⟩

theorem takes_optional_null {reader : Reader α} :
    Takes EndsNumber (Reader.optional reader) "null".toList none :=
  (Reader.firstOfValue_on rfl rfl).takes (Reader.takes_null.bind_last (.pure none))

/-- An optional field takes `null` as what it is without a value. -/
theorem takes_null : ∀ field ∈ shape.fields, field.required = false →
    ∃ a : Assignment, a.field = field.name ∧ a.HeldBy default ∧
      Takes EndsNumber field.read "null".toList a.apply := by
  simp only [shape, List.forall_mem_cons]
  refine ⟨fun h => absurd h (by decide), fun h => absurd h (by decide),
    fun h => absurd h (by decide), fun h => absurd h (by decide),
    fun _ => ⟨.opacity none, rfl, rfl, takes_optional_null.bind_last (.pure _)⟩,
    fun _ => ⟨.distance none, rfl, rfl, takes_optional_null.bind_last (.pure _)⟩,
    fun _ => ⟨.axis none, rfl, rfl, takes_optional_null.bind_last (.pure _)⟩,
    fun _ => ⟨.scale none, rfl, rfl, takes_optional_null.bind_last (.pure _)⟩,
    fun _ => ⟨.degrees none, rfl, rfl, takes_optional_null.bind_last (.pure _)⟩,
    List.forall_mem_nil _⟩

end Config

/-! Angles. -/

/-- The members of an object that turns from zero to a number. -/
structure TurnsTo (number : List Char) (start stop : Member) : Prop where
  start_spaced : start.Spaced
  start_key : Spells start.key "start".toList
  start_value : start.value = ['0']
  stop_spaced : stop.Spaced
  stop_key : Spells stop.key "end".toList
  stop_value : stop.value = number

theorem takes_numberValue {n : Number} (hnumeral : Numeral number)
    (h : Takes EndsNumber Reader.number number n) (depth : Nat) :
    Takes EndsNumber (Reader.value depth) number (.number n) := by
  obtain ⟨array, nested, hvalue⟩ := Reader.value_scalars depth
  obtain ⟨c, hc, hstart⟩ := Reader.head?_numeral hnumeral
  rw [hvalue]
  exact (Reader.byFirst_number hc hstart).takes fun behind hend => Reads.map (h behind hend)

theorem denies_numberValue (hnumeral : Numeral number) (h : Denies EndsNumber Reader.number number)
    (depth : Nat) : Denies EndsNumber (Reader.value depth) number := by
  obtain ⟨array, nested, hvalue⟩ := Reader.value_scalars depth
  obtain ⟨c, hc, hstart⟩ := Reader.head?_numeral hnumeral
  rw [hvalue]
  exact (Reader.byFirst_number hc hstart).denies fun behind hend => Refuses.map (h behind hend)

theorem takes_numberAngles {n : Number} (hnumeral : Numeral number)
    (h : Takes EndsNumber Reader.number number n) :
    Takes EndsNumber readAngles number ⟨.zero, n.toBinary64⟩ := by
  apply (takes_numberValue hnumeral h _).bind_last
  exact .pure _

theorem ofInt_zero : Binary64.ofInt 0 = .zero := by
  have hrank : Binary64.nearestRank (Int.natAbs 0 * Binary64.one) 1 = 0 :=
    Binary64.nearestRank_of_lt (by simp)
  simp only [Binary64.ofInt, Binary64.ofUnits, hrank]
  rfl

theorem wholePart_digit {c : Char} (h : '0' ≤ c ∧ c ≤ '9') : WholePart [c] where
  digits := List.forall_mem_singleton.mpr h
  ne_nil := List.cons_ne_nil c []
  zero := by simp [Classical.em]

theorem numeral_digit {c : Char} (h : '0' ≤ c ∧ c ≤ '9') : Numeral [c] := by
  have hparts : Numeral ([c] ++ ([] ++ [])) := .unsigned (wholePart_digit h) .none .none
  exact hparts

theorem numeral_zero : Numeral ['0'] := numeral_digit ⟨by decide, by decide⟩

theorem takes_zero : Takes EndsNumber Reader.number ['0'] (.whole 0) := by
  intro behind hend
  apply Reader.reads_number
  have hdigits : ∀ c ∈ ['0'], c.isDigit = true := List.forall_mem_singleton.mpr rfl
  apply Reads.bind_last (Reader.reads_wholeDigits hdigits (by decide) (.inl rfl)
    fun c hc => (hend c hc).1)
  apply Reads.bind_last (Reader.reads_fractionDigits_none fun c hc => (hend c hc).2.1)
  apply Reads.bind_last (Reader.reads_power_none fun c hc => (hend c hc).2.2)
  exact Reads.pure _ _

theorem spells_letters {letters chars : List Char} (h : Spells letters chars) : Letters letters := by
  induction h with
  | nil => exact .nil
  | plain hquote hbackslash hcontrol _ ih => exact .plain hquote hbackslash hcontrol ih
  | escape hmark _ ih => exact .escape hmark ih
  | numeric hdigits _ _ _ ih => exact .numeric hdigits ih
  | pair hdigits hdigits' _ _ _ ih => exact .numeric hdigits (.numeric hdigits' ih)

variable {space : List Char} {start stop : Member}

namespace TurnsTo

theorem spaced (h : TurnsTo number start stop) : ∀ member ∈ [start, stop], member.Spaced := by
  simp [h.start_spaced, h.stop_spaced]

theorem keys (h : TurnsTo number start stop) : ∀ member ∈ [start, stop], Letters member.key := by
  simp [spells_letters h.start_key, spells_letters h.stop_key]

theorem takes {n : Number} (h : TurnsTo number start stop) (hnumeral : Numeral number)
    (htakes : Takes EndsNumber Reader.number number n) (hspace : Blank space) :
    Takes EndsNumber readAngles (objectText space [start, stop]) ⟨.zero, n.toBinary64⟩ := by
  have hmembers : List.Forall₂ (Reader.ReadAs (Reader.value 125)) [start, stop]
      [("start", .number (.whole 0)), ("end", .number n)] := by
    refine .cons ⟨h.start_key, ?_⟩ (.cons ⟨h.stop_key, ?_⟩ .nil)
    · rw [h.start_value]
      exact takes_numberValue numeral_zero takes_zero _
    · rw [h.stop_value]
      exact takes_numberValue hnumeral htakes _
  have hobject : Takes EndsNumber (Reader.value (maxDepth - 1)) (objectText space [start, stop]) _ :=
    Reader.takes_objectValue h.spaced hmembers hspace
  have hangles : anglesOf? (.object [("start", .number (.whole 0)), ("end", .number n)]) =
      some ⟨.zero, n.toBinary64⟩ := by
    have hzero : (Number.whole 0).toBinary64 = .zero := ofInt_zero
    simp [anglesOf?, uniqueMember?, hzero]
  refine hobject.bind_last ?_
  rw [hangles]
  exact .pure _

theorem denies (h : TurnsTo number start stop) (hnumeral : Numeral number)
    (hdenies : Denies EndsNumber Reader.number number) (hspace : Blank space) :
    Denies EndsNumber readAngles (objectText space [start, stop]) := by
  have hsettled : ∀ member ∈ [start, stop],
      Settled EndsNumber (Reader.value 125) member.value := by
    refine List.forall_mem_cons.mpr ⟨?_, List.forall_mem_singleton.mpr ?_⟩
    · rw [h.start_value]
      exact .of_takes (takes_numberValue numeral_zero takes_zero _)
    · rw [h.stop_value]
      exact Reader.settled_value (.number hnumeral) _
  have hobject : Denies EndsNumber (Reader.value (maxDepth - 1)) (objectText space [start, stop]) := by
    apply Reader.denies_objectValue h.spaced h.keys hsettled _ hspace
    rintro named (_ | ⟨-, _ | ⟨hlast, -⟩⟩)
    rw [Reader.ReadAs, h.stop_value] at hlast
    exact hlast.2.not_denies (denies_numberValue hnumeral hdenies _)
  exact fun behind hend => .bind (hobject behind hend)

/-- The two forms of angles are one to the reader. -/
theorem agreed (h : TurnsTo number start stop) (hnumeral : Numeral number) (hspace : Blank space) :
    Agreed readAngles number (objectText space [start, stop]) := by
  rcases Reader.settled_number hnumeral with ⟨n, htakes⟩ | hdenies
  · exact .inl ⟨_, takes_numberAngles hnumeral htakes, h.takes hnumeral htakes hspace⟩
  · exact .inr ⟨fun behind hend => .bind (denies_numberValue hnumeral hdenies _ behind hend),
      h.denies hnumeral hdenies hspace⟩

end TurnsTo

/-- What does not start like `null` is agreed on where it may be absent, too. -/
theorem agreed_optional {c c' : Char} (h : Agreed reader text text') (hc : text.head? = some c)
    (hspace : isSpace c = false) (hnull : c ≠ 'n') (hc' : text'.head? = some c')
    (hspace' : isSpace c' = false) (hnull' : c' ≠ 'n') :
    Agreed (Reader.optional reader) text text' := by
  have hsame : SameOn text (Reader.optional reader) (some <$> reader) := by
    have hfirst : SameOn text (Reader.optional reader) _ := Reader.firstOfValue_on hc hspace
    rwa [if_neg hnull] at hfirst
  have hsame' : SameOn text' (Reader.optional reader) (some <$> reader) := by
    have hfirst : SameOn text' (Reader.optional reader) _ := Reader.firstOfValue_on hc' hspace'
    rwa [if_neg hnull'] at hfirst
  rcases h with ⟨value, htakes, htakes'⟩ | ⟨hdenies, hdenies'⟩
  · exact .inl ⟨some value, hsame.takes fun _ hend => Reads.map (htakes _ hend),
      hsame'.takes fun _ hend => Reads.map (htakes' _ hend)⟩
  · exact .inr ⟨hsame.denies fun _ hend => Refuses.map (hdenies _ hend),
      hsame'.denies fun _ hend => Refuses.map (hdenies' _ hend)⟩

/-- The field for angles does not tell the two forms apart. -/
theorem Config.agreed_degrees (hnumeral : Numeral number) (hspace : Blank space)
    (hturn : TurnsTo number start stop) : ∀ field ∈ shape.fields, field.name = "degrees" →
      Agreed field.read number (objectText space [start, stop]) := by
  obtain ⟨c, hc, hstart⟩ := Reader.head?_numeral hnumeral
  have hnull : c ≠ 'n' := by
    rintro rfl
    cases hstart
  have hoptional := agreed_optional (hturn.agreed hnumeral hspace) hc
    (Reader.isSpace_of_startsNumber hstart) hnull rfl rfl (by decide)
  simp only [shape, List.forall_mem_cons]
  refine ⟨fun h => absurd h (by decide), fun h => absurd h (by decide),
    fun h => absurd h (by decide), fun h => absurd h (by decide), fun h => absurd h (by decide),
    fun h => absurd h (by decide), fun h => absurd h (by decide), fun h => absurd h (by decide),
    fun _ => hoptional.bind_last fun _ => .pure _, List.forall_mem_nil _⟩

end AnimationKit
