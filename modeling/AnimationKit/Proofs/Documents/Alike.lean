import AnimationKit.Proofs.Documents.Fields
import AnimationKit.Proofs.Documents.Verdicts

/-!
Documents that load alike: neither the order of members nor members without a field count, `null` is
an absent value, and a number stands for the turn from zero to it. One thing about a member without
a field does count: its key must spell a text.
-/
namespace AnimationKit

open Json

/-- An object as a text, with members of different names. -/
structure Document where
  before : List Char
  space : List Char
  members : List Member
  behind : List Char
  before_blank : Blank before
  space_blank : Blank space
  behind_blank : Blank behind
  grammatical : ∀ member ∈ members, member.Grammatical
  distinct : Distinct members

def Document.text (document : Document) : String :=
  String.ofList (document.before ++ (objectText document.space document.members ++ document.behind))

namespace Config

def requiredNames : List String := ["type", "duration", "delay", "easing"]

def optionalNames : List String := ["opacity", "distance", "axis", "scale", "degrees"]

/-- Members that say the same of a config. -/
inductive Alike : List Member → List Member → Prop
  | symm {l l' : List Member} : Alike l l' → Alike l' l
  | trans {l members l' : List Member} : Alike l members → Alike members l' → Alike l l'
  | order {l l' : List Member} : l.Perm l' → Alike l l'
  | space {member member' : Member} {l : List Member} : member.key = member'.key →
      member.value = member'.value → Alike (member :: l) (member' :: l)
  | unknown {member : Member} {l : List Member} :
      (∀ name ∈ requiredNames ++ optionalNames, ¬ Spells member.key name.toList) →
      Alike l (member :: l)
  | null {name : String} {member : Member} {l : List Member} : name ∈ optionalNames →
      Spells member.key name.toList → member.value = "null".toList → (∀ value, ¬ Has l name value) →
      Alike l (member :: l)
  | angles {member start stop : Member} {space : List Char} {l : List Member} :
      Spells member.key "degrees".toList → Numeral member.value → Blank space →
      TurnsTo member.value start stop →
      Alike (member :: l) ({ member with value := objectText space [start, stop] } :: l)

/-- The same config, the same error, or two complaints about malformed documents. -/
inductive SameAnswer : Except ConfigError Config → Except ConfigError Config → Prop
  | same (answer : Except ConfigError Config) : SameAnswer answer answer
  | malformed (reason reason' : String) :
      SameAnswer (.error (.malformed reason)) (.error (.malformed reason'))

/-- Two texts load alike, and a host that has them exports alike, up to complaints about malformed
documents. -/
structure LoadAlike (text text' : String) : Prop where
  loaded : SameAnswer (load text) (load text')
  exported : (∀ reason, load text ≠ .error (.malformed reason)) → ∀ format value value',
    value.Serializes text → value'.Serializes text' →
    Studio.generate format value = Studio.generate format value'

/-! The value that counts for a field. -/

variable {l l' members : List Member} {field : Json.Field Config} {config config' : Config}

/-- The value of a member with the name of the field, or `null` for an optional field without one. -/
def Counts (members : List Member) (field : Json.Field Config) (value : List Char) : Prop :=
  Has members field.name value ∨
    (field.required = false ∧ (∀ other, ¬ Has members field.name other) ∧ value = "null".toList)

/-- What counts for a field here is not told apart from something that counts for it there. -/
def Covers (l l' : List Member) : Prop :=
  ∀ field ∈ shape.fields, ∀ value, Counts l field value → ∃ value', Counts l' field value' ∧
    ∀ change, Takes EndsNumber field.read value change ↔ Takes EndsNumber field.read value' change

theorem Covers.trans (h : Covers l members) (h' : Covers members l') : Covers l l' := by
  intro field hfield value hcounts
  obtain ⟨between, hbetween, hread⟩ := h field hfield value hcounts
  obtain ⟨value', hcounts', hread'⟩ := h' field hfield between hbetween
  exact ⟨value', hcounts', fun change => (hread change).trans (hread' change)⟩

theorem covers_of_counts (h : ∀ field ∈ shape.fields, ∀ value, Counts l field value →
    Counts l' field value) : Covers l l' :=
  fun field hfield value hcounts => ⟨value, h field hfield value hcounts, fun _ => Iff.rfl⟩

theorem counts_of_has (h : ∀ value, Has l field.name value ↔ Has l' field.name value) :
    Counts l field value ↔ Counts l' field value := by
  simp only [Counts, h]

theorem covers_of_has (h : ∀ field ∈ shape.fields, ∀ value, Has l field.name value ↔
    Has l' field.name value) : Covers l l' ∧ Covers l' l :=
  ⟨covers_of_counts fun field hfield _ => (counts_of_has (h field hfield)).mp,
    covers_of_counts fun field hfield _ => (counts_of_has (h field hfield)).mpr⟩

theorem name_mem (h : field ∈ shape.fields) : field.name ∈ requiredNames ++ optionalNames := by
  have hnames : ∀ name ∈ shape.fields.map (·.name), name ∈ requiredNames ++ optionalNames := by decide
  exact hnames _ (List.mem_map_of_mem h)

theorem optional_of_name : ∀ field ∈ shape.fields, field.name ∈ optionalNames →
    field.required = false := by
  simp only [shape, List.forall_mem_cons]
  decide

theorem has_cons_of_ne {member : Member} {name : String} {value : List Char}
    (hkey : Spells member.key name.toList) (hne : field.name ≠ name) :
    Has (member :: l) field.name value ↔ Has l field.name value := by
  have hother : ¬ Spells member.key field.name.toList := fun hspells =>
    hne (String.toList_inj.mp (Reader.spells_unique hspells hkey))
  simp [RecordShape.has_cons, hother]

theorem covers_null {member : Member} {name : String} (hname : name ∈ optionalNames)
    (hkey : Spells member.key name.toList) (hvalue : member.value = "null".toList)
    (habsent : ∀ value, ¬ Has l name value) : Covers l (member :: l) ∧ Covers (member :: l) l := by
  have hnull : Has (member :: l) name "null".toList := RecordShape.has_cons.mpr (.inl ⟨hkey, hvalue⟩)
  constructor
  · refine covers_of_counts fun field hfield value hcounts => ?_
    by_cases heq : field.name = name
    · rcases hcounts with hhas | ⟨-, -, rfl⟩
      · exact (habsent value (heq ▸ hhas)).elim
      · exact .inl (heq ▸ hnull)
    · exact (counts_of_has fun _ => has_cons_of_ne hkey heq).mpr hcounts
  · refine covers_of_counts fun field hfield value hcounts => ?_
    by_cases heq : field.name = name
    · rcases hcounts with hhas | ⟨-, hnone, -⟩
      · rw [heq] at hhas
        rcases RecordShape.has_cons.mp hhas with ⟨-, rfl⟩ | hhas
        · exact .inr ⟨optional_of_name field hfield (heq ▸ hname), heq ▸ habsent, hvalue⟩
        · exact (habsent value hhas).elim
      · exact (hnone _ (heq ▸ hnull)).elim
    · exact (counts_of_has fun _ => has_cons_of_ne hkey heq).mp hcounts

/-- One value for a field in place of another one. -/
theorem covers_value {member member' : Member} {name : String} (hkey : member'.key = member.key)
    (hname : Spells member.key name.toList)
    (hread : ∀ field ∈ shape.fields, field.name = name → ∀ change,
      Takes EndsNumber field.read member.value change ↔
        Takes EndsNumber field.read member'.value change) : Covers (member :: l) (member' :: l) := by
  have hname' : Spells member'.key name.toList := hkey ▸ hname
  intro field hfield value hcounts
  by_cases heq : field.name = name
  · rcases hcounts with hhas | ⟨-, hnone, -⟩
    · rw [heq] at hhas
      rcases RecordShape.has_cons.mp hhas with ⟨-, rfl⟩ | hhas
      · refine ⟨member'.value, .inl ?_, hread field hfield heq⟩
        exact heq ▸ RecordShape.has_cons.mpr (.inl ⟨hname', rfl⟩)
      · refine ⟨value, .inl ?_, fun _ => Iff.rfl⟩
        exact heq ▸ RecordShape.has_cons.mpr (.inr hhas)
    · exact (hnone member.value (heq ▸ RecordShape.has_cons.mpr (.inl ⟨hname, rfl⟩))).elim
  · refine ⟨value, (counts_of_has fun other => ?_).mp hcounts, fun _ => Iff.rfl⟩
    rw [has_cons_of_ne hname heq, has_cons_of_ne hname' heq]

theorem Alike.covers (h : Alike l l') : Covers l l' ∧ Covers l' l := by
  induction h with
  | symm _ ih => exact ih.symm
  | trans _ _ ih ih' => exact ⟨ih.1.trans ih'.1, ih'.2.trans ih.2⟩
  | order hperm =>
    refine covers_of_has fun field _ value => ?_
    simp only [Has, hperm.mem_iff]
  | space hkey hvalue =>
    refine covers_of_has fun field _ value => ?_
    simp only [RecordShape.has_cons, hkey, hvalue]
  | unknown hunknown =>
    refine covers_of_has fun field hfield value => ?_
    simp [RecordShape.has_cons, hunknown field.name (name_mem hfield)]
  | null hname hkey hvalue habsent => exact covers_null hname hkey hvalue habsent
  | angles hkey hnumeral hspace hturn =>
    have hagreed := agreed_degrees hnumeral hspace hturn
    exact ⟨covers_value rfl hkey fun field hfield hname change =>
        (hagreed field hfield hname).takes_iff change,
      covers_value rfl hkey fun field hfield hname change =>
        ((hagreed field hfield hname).takes_iff change).symm⟩

/-! What the members fill a config with. -/

theorem names_nodup : (shape.fields.map (·.name)).Nodup := by decide

theorem field?_name {name : String} (h : shape.field? name = some field) :
    field ∈ shape.fields ∧ field.name = name :=
  ⟨List.mem_of_find?_eq_some h, by simpa using List.find?_some h⟩

theorem exists_counts (hfills : shape.Fills l default [] config) (hfield : field ∈ shape.fields) :
    ∃ value, Counts l field value := by
  by_cases hhas : ∃ value, Has l field.name value
  · obtain ⟨value, hvalue⟩ := hhas
    exact ⟨value, .inl hvalue⟩
  · refine ⟨_, .inr ⟨?_, fun other hother => hhas ⟨other, hother⟩, rfl⟩⟩
    by_contra hneeded
    rcases hfills.required hfield (by simpa using hneeded) with hseen | hthere
    · cases hseen
    · exact hhas hthere

/-- What counts for a field is taken, and the config that is filled holds it. -/
theorem held_of_counts {value : List Char} (hfills : shape.Fills l default [] config)
    (hfield : field ∈ shape.fields) (hcounts : Counts l field value) :
    ∃ a : Assignment, a.field = field.name ∧ Takes EndsNumber field.read value a.apply ∧
      a.HeldBy config := by
  -- A field with another name leaves alone what a field has set.
  have hkeep {members : List Member} {a : Assignment} (hname : a.field = field.name)
      (hfresh : ∀ value, ¬ Has members field.name value) (name : String) (value : List Char)
      (other : Json.Field Config) (change : Config → Config) (hhas : Has members name value)
      (hother : shape.field? name = some other) (hread : Takes EndsNumber other.read value change)
      (record : Config) (hheld : a.HeldBy record) : a.HeldBy (change record) := by
    obtain ⟨hmem, hothername⟩ := field?_name hother
    obtain ⟨b, hb, rfl⟩ := (gives_assignment other hmem).of_takes hread
    refine hheld.apply fun heq => hfresh value ?_
    rwa [← hname, heq, hb, hothername]
  rcases hcounts with hhas | ⟨hoptional, hnone, rfl⟩
  · obtain ⟨change, members, record, seen, hread, hseen, hrest⟩ :=
      hfills.sets hhas (RecordShape.field?_of_mem names_nodup hfield)
    obtain ⟨a, hname, rfl⟩ := (gives_assignment field hfield).of_takes hread
    have hfresh := hrest.fresh hseen (RecordShape.field?_of_mem names_nodup hfield)
    exact ⟨a, hname, hread, hrest.keeps (hkeep hname hfresh) (a.heldBy_apply record)⟩
  · obtain ⟨a, hname, hheld, hread⟩ := takes_null field hfield hoptional
    exact ⟨a, hname, hread, hfills.keeps (hkeep hname hnone) hheld⟩

/-- Members that cover those of a config fill a config if their keys are in order. -/
theorem exists_fills_of_covers (h : Covers l l') (h' : Covers l' l) (hnamed : Named l')
    (hdistinct : Distinct l') (hfills : shape.Fills l default [] config) :
    ∃ config', shape.Fills l' default [] config' := by
  apply RecordShape.exists_fills hnamed hdistinct
  · intro name value field hhas hfound
    obtain ⟨hfield, rfl⟩ := field?_name hfound
    obtain ⟨value', hcounts, hread⟩ := h' field hfield value (.inl hhas)
    obtain ⟨a, -, htakes, -⟩ := held_of_counts hfills hfield hcounts
    exact ⟨a.apply, (hread _).mpr htakes⟩
  · simp
  · intro field hfield hneeded
    obtain ⟨value, hcounts⟩ := exists_counts hfills hfield
    obtain ⟨value', hcounts', -⟩ := h field hfield value hcounts
    rcases hcounts' with hhas | ⟨hoptional, -, -⟩
    · exact .inr ⟨value', hhas⟩
    · rw [hneeded] at hoptional
      cases hoptional

theorem fills_of_covers (h : Covers l l') (h' : Covers l' l) (hnamed : Named l')
    (hdistinct : Distinct l') (hfills : shape.Fills l default [] config) :
    shape.Fills l' default [] config := by
  obtain ⟨config', hfills'⟩ := exists_fills_of_covers h h' hnamed hdistinct hfills
  have hsame : config = config' := by
    refine Assignment.eq_of_heldBy fun field hfield => ?_
    obtain ⟨value, hcounts⟩ := exists_counts hfills hfield
    obtain ⟨value', hcounts', hread⟩ := h field hfield value hcounts
    obtain ⟨a, hname, htakes, hheld⟩ := held_of_counts hfills hfield hcounts
    obtain ⟨b, -, htakes', hheld'⟩ := held_of_counts hfills' hfield hcounts'
    have happly : a.apply = b.apply := ((hread _).mp htakes).unique htakes'
    refine ⟨a, hname, hheld, ?_⟩
    rw [Assignment.HeldBy, happly]
    exact hheld'
  rwa [hsame]

/-! Documents without space and without escapes in the keys. -/

/-- Nothing in a text needs an escape. -/
def Unescaped (text : List Char) : Prop := ∀ c ∈ text, c ≠ '"' ∧ c ≠ '\\' ∧ ¬ c < ' '

instance (text : List Char) : Decidable (Unescaped text) :=
  List.decidableBAll (fun c => c ≠ '"' ∧ c ≠ '\\' ∧ ¬ c < ' ') text

theorem spells_self {text : List Char} (h : Unescaped text) : Spells text text := by
  induction text with
  | nil => exact .nil
  | cons c text ih =>
    obtain ⟨⟨hquote, hbackslash, hcontrol⟩, htext⟩ := List.forall_mem_cons.mp h
    exact .plain hquote hbackslash hcontrol (ih htext)

theorem spells_iff {text chars : List Char} (h : Unescaped text) :
    Spells text chars ↔ chars = text := by
  constructor
  · exact fun hspells => Reader.spells_unique hspells (spells_self h)
  · rintro rfl
    exact spells_self h

/-- A member without space, from a key and a value. -/
def bare (pair : String × List Char) : Member :=
  ⟨⟨[], pair.2, []⟩, [], pair.1.toList, []⟩

theorem bare_spaced (pair : String × List Char) : (bare pair).Spaced :=
  ⟨⟨List.forall_mem_nil _, List.forall_mem_nil _⟩, List.forall_mem_nil _, List.forall_mem_nil _⟩

variable {pairs : List (String × List Char)}

/-- What makes members without space an object as the grammar has it. -/
structure Plain (pairs : List (String × List Char)) : Prop where
  keys : ∀ pair ∈ pairs, Unescaped pair.1.toList
  values : ∀ pair ∈ pairs, Written pair.2
  distinct : (pairs.map (·.1)).Nodup

namespace Plain

theorem spells (h : Plain pairs) : ∀ member ∈ pairs.map bare, Spells member.key member.key := by
  simp only [List.forall_mem_map]
  exact fun pair hpair => spells_self (h.keys pair hpair)

theorem named (h : Plain pairs) : Named (pairs.map bare) :=
  fun member hmember => ⟨member.key, h.spells member hmember⟩

theorem grammatical (h : Plain pairs) : ∀ member ∈ pairs.map bare, member.Grammatical := by
  simp only [List.forall_mem_map]
  exact fun pair hpair => ⟨bare_spaced pair, spells_letters (spells_self (h.keys pair hpair)),
    h.values pair hpair⟩

theorem distinct_members (h : Plain pairs) : Distinct (pairs.map bare) := by
  have hdistinct := List.pairwise_map.mp h.distinct
  refine List.pairwise_map.mpr (hdistinct.imp_of_mem fun hpair hother hne chars hkey hkey' => hne ?_)
  have hchars := (spells_iff (h.keys _ hpair)).mp hkey
  have hchars' := (spells_iff (h.keys _ hother)).mp hkey'
  exact String.toList_inj.mp (hchars.symm.trans hchars')

theorem tail {pair : String × List Char} (h : Plain (pair :: pairs)) : Plain pairs where
  keys := (List.forall_mem_cons.mp h.keys).2
  values := (List.forall_mem_cons.mp h.values).2
  distinct := (List.nodup_cons.mp h.distinct).2

theorem not_has (h : Plain pairs) {name : String} (hname : name ∉ pairs.map (·.1))
    (value : List Char) : ¬ Has (pairs.map bare) name value := by
  rintro ⟨member, hmember, hspells, -⟩
  obtain ⟨pair, hpair, rfl⟩ := List.mem_map.mp hmember
  have heq : name = pair.1 := String.toList_inj.mp ((spells_iff (h.keys pair hpair)).mp hspells)
  exact hname (heq ▸ List.mem_map_of_mem hpair)

/-- The object without any space. -/
def toDocument (h : Plain pairs) : Document where
  before := []
  space := []
  members := pairs.map bare
  behind := []
  before_blank := List.forall_mem_nil _
  space_blank := List.forall_mem_nil _
  behind_blank := List.forall_mem_nil _
  grammatical := h.grammatical
  distinct := h.distinct_members

end Plain

theorem written_word {text : List Char} (h : Unescaped text) : Written (inQuotes text) :=
  .string (spells_letters (spells_self h))

theorem written_digit {c : Char} (h : '0' ≤ c ∧ c ≤ '9') : Written [c] := .number (numeral_digit h)

/-! Loading. -/

variable {document document' : Document}

theorem ofJson_fills (h : shape.Fills document.members default [] config) :
    ofJson document.text = .ok config := by
  have hread : Reads (shape.read default) (objectText document.space document.members) config
      document.behind :=
    RecordShape.reads_object settles_fields document.space_blank document.grammatical h
  have hrun := ((RecordShape.skipsSpace_record shape default).reads document.before_blank
    hread).run_blank document.behind_blank
  rw [List.append_assoc] at hrun
  rw [ofJson, readDocument, Document.text, String.toList_ofList, hrun]

theorem ofJson_not_fills (h : ∀ config, ¬ shape.Fills document.members default [] config) :
    ∃ reason, ofJson document.text = .error (.malformed reason) := by
  have hrefuses : Refuses (shape.read default)
      (objectText document.space document.members ++ document.behind) :=
    RecordShape.refuses_object settles_fields document.space_blank document.grammatical h
  obtain ⟨failure, hrun⟩ := ((RecordShape.skipsSpace_record shape default).refuses
    document.before_blank hrefuses).run
  rw [ofJson, readDocument, Document.text, String.toList_ofList, hrun]
  exact ⟨_, rfl⟩

theorem load_malformed {text reason : String} (h : ofJson text = .error (.malformed reason)) :
    load text = .error (.malformed reason) := by
  rw [load, h]
  rfl

/-- What a host exports is settled by what is loaded. -/
theorem loadAlike_of_eq {text text' : String} (h : load text = load text') :
    LoadAlike text text' where
  loaded := h ▸ .same _
  exported _ format value value' hvalue hvalue' := by
    cases hload : load text with
    | ok config => rw [generate_of_load hload hvalue, generate_of_load (h ▸ hload) hvalue']
    | error cause => rw [generate_of_error hload hvalue, generate_of_error (h ▸ hload) hvalue']

/-- Documents with members that say the same of a config load alike, if each key spells a text in
both or in neither. -/
theorem load_of_alike (halike : Alike document.members document'.members)
    (hnamed : Named document.members ↔ Named document'.members) :
    LoadAlike document.text document'.text := by
  obtain ⟨hcovers, hcovers'⟩ := halike.covers
  by_cases hfills : ∃ config, shape.Fills document.members default [] config
  · obtain ⟨config, hconfig⟩ := hfills
    have hconfig' : shape.Fills document'.members default [] config :=
      fills_of_covers hcovers hcovers' (hnamed.mp hconfig.named) document'.distinct hconfig
    apply loadAlike_of_eq
    rw [load_of_ofJson (ofJson_fills hconfig), load_of_ofJson (ofJson_fills hconfig')]
  · have hfills' : ∀ config, ¬ shape.Fills document'.members default [] config :=
      fun config hconfig => hfills ⟨config, fills_of_covers hcovers' hcovers
        (hnamed.mpr hconfig.named) document.distinct hconfig⟩
    obtain ⟨reason, hreason⟩ := ofJson_not_fills fun config hconfig => hfills ⟨config, hconfig⟩
    obtain ⟨reason', hreason'⟩ := ofJson_not_fills hfills'
    refine ⟨?_, fun hwell => (hwell reason (load_malformed hreason)).elim⟩
    rw [load_malformed hreason, load_malformed hreason']
    exact .malformed reason reason'

/-- What any turn for a second has. -/
def turnPairs : List (String × List Char) :=
  [("type", inQuotes "rotate".toList), ("duration", ['1']), ("delay", ['0']),
    ("easing", inQuotes "ease".toList)]

/-- A turn to one and a half degrees the other way round. -/
def scalarPairs : List (String × List Char) := turnPairs ++ [("degrees", "-1.5".toList)]

/-- The angles of that turn as an object. -/
def spanPair : String × List Char :=
  ("degrees", objectText [] [bare ("start", ['0']), bare ("end", "-1.5".toList)])

/-- That turn in another order, with an absent opacity and with a number that is too large for any
field. -/
def spanPairs : List (String × List Char) :=
  ("note", arrayText [] [⟨[], "1e999".toList, []⟩]) :: ("opacity", "null".toList) :: spanPair ::
    turnPairs

theorem numeral_turn : Numeral "-1.5".toList := by
  have hfraction : FractionPart ['.', '5'] := .point (by simp [Literal.Digits]) (by simp)
  have hnumeral : Numeral ('-' :: (['1'] ++ (['.', '5'] ++ []))) :=
    .minus (wholePart_digit (by decide)) hfraction .none
  exact hnumeral

theorem turnsTo_turn :
    TurnsTo "-1.5".toList (bare ("start", ['0'])) (bare ("end", "-1.5".toList)) where
  start_spaced := bare_spaced _
  start_key := spells_self (by decide)
  start_value := rfl
  stop_spaced := bare_spaced _
  stop_key := spells_self (by decide)
  stop_value := rfl

theorem written_turnPairs : ∀ pair ∈ turnPairs, Written pair.2 := by
  simp only [turnPairs, List.forall_mem_cons]
  exact ⟨written_word (by decide), written_digit (by decide), written_digit (by decide),
    written_word (by decide), List.forall_mem_nil _⟩

theorem plain_scalar : Plain scalarPairs where
  keys := by decide
  values := List.forall_mem_append.mpr
    ⟨written_turnPairs, List.forall_mem_singleton.mpr (.number numeral_turn)⟩
  distinct := by decide

theorem written_note : Written (arrayText [] [⟨[], "1e999".toList, []⟩]) := by
  have hpower : Literal.Exponent _ ('e' :: ([] ++ ['9', '9', '9'])) :=
    .power (.inl rfl) .none (by simp) (by simp [Literal.Digits])
  have hnumeral : Numeral (['1'] ++ ([] ++ ['e', '9', '9', '9'])) :=
    .unsigned (wholePart_digit (by decide)) .none hpower
  refine .array (List.forall_mem_nil _) (List.forall_mem_singleton.mpr ?_)
    (List.forall_mem_singleton.mpr ?_)
  · exact ⟨List.forall_mem_nil _, List.forall_mem_nil _⟩
  · exact .number hnumeral

theorem written_span : Written spanPair.2 := by
  refine .object (List.forall_mem_nil _) turnsTo_turn.spaced turnsTo_turn.keys ?_
  exact List.forall_mem_cons.mpr ⟨written_digit (by decide),
    List.forall_mem_singleton.mpr (.number numeral_turn)⟩

theorem plain_span : Plain spanPairs where
  keys := by decide
  values := by
    simp only [spanPairs, List.forall_mem_cons]
    exact ⟨written_note, .null, written_span, written_turnPairs⟩
  distinct := by decide

theorem alike_turns : Alike plain_scalar.toDocument.members plain_span.toDocument.members := by
  have hscalar : Alike plain_scalar.toDocument.members
      (bare ("degrees", "-1.5".toList) :: turnPairs.map bare) :=
    .order (List.perm_append_comm.map bare)
  have hspan : Alike (bare ("degrees", "-1.5".toList) :: turnPairs.map bare)
      (bare spanPair :: turnPairs.map bare) :=
    .angles (spells_self (by decide)) numeral_turn (List.forall_mem_nil _) turnsTo_turn
  have hplain : Plain (spanPair :: turnPairs) := plain_span.tail.tail
  have hnull : Alike (bare spanPair :: turnPairs.map bare)
      (bare ("opacity", "null".toList) :: bare spanPair :: turnPairs.map bare) :=
    .null (by decide) (spells_self (by decide)) rfl (hplain.not_has (by decide))
  have hnote : Alike (bare ("opacity", "null".toList) :: bare spanPair :: turnPairs.map bare)
      plain_span.toDocument.members := by
    refine .unknown fun name hname hspells => ?_
    have heq : name.toList = "note".toList := (spells_iff (by decide)).mp hspells
    rw [String.toList_inj.mp heq] at hname
    exact absurd hname (by decide)
  exact .trans hscalar (.trans hspan (.trans hnull hnote))

/-- The turn loads alike in both forms. -/
theorem load_of_alike_turn :
    plain_scalar.toDocument.text =
        "\x7b\"type\":\"rotate\",\"duration\":1,\"delay\":0,\"easing\":\"ease\",\"degrees\":-1.5\x7d" ∧
      plain_span.toDocument.text =
        "\x7b\"note\":[1e999],\"opacity\":null,\"degrees\":\x7b\"start\":0,\"end\":-1.5\x7d," ++
          "\"type\":\"rotate\",\"duration\":1,\"delay\":0,\"easing\":\"ease\"\x7d" ∧
      Alike plain_scalar.toDocument.members plain_span.toDocument.members ∧
      LoadAlike plain_scalar.toDocument.text plain_span.toDocument.text :=
  ⟨rfl, by decide +kernel, alike_turns, load_of_alike alike_turns
    ⟨fun _ => plain_span.named, fun _ => plain_scalar.named⟩⟩

/-- A fade for a second. -/
def fadePairs : List (String × List Char) :=
  [("type", inQuotes "fade".toList), ("duration", ['1']), ("delay", ['0']),
    ("easing", inQuotes "ease".toList)]

theorem plain_fade : Plain fadePairs where
  keys := by decide
  values := by
    simp only [fadePairs, List.forall_mem_cons]
    exact ⟨written_word (by decide), written_digit (by decide), written_digit (by decide),
      written_word (by decide), List.forall_mem_nil _⟩
  distinct := by decide

/-- A member with half of a surrogate pair for its key. -/
def strayMember : Member := bare ("\\ud800", ['0'])

theorem not_spells_stray (chars : List Char) : ¬ Spells strayMember.key chars := by
  intro hspells
  have htakes : Takes EndsNumber Reader.quotedString (inQuotes strayMember.key) _ :=
    Reader.takes_spelled hspells
  obtain ⟨cursor, hread⟩ := htakes [] endsNumber_nil 0
  have hrefused : (Reader.quotedString ⟨inQuotes strayMember.key ++ [], 0⟩).isOk = false := rfl
  rw [hread] at hrefused
  cases hrefused

theorem letters_stray : Letters strayMember.key := by
  have hdigits : Hex ['d', '8', '0', '0'] 0xd800 := ⟨rfl, rfl⟩
  exact .numeric hdigits .nil

/-- That member in front of others. -/
def Plain.withStray (h : Plain pairs) : Document where
  before := []
  space := []
  members := strayMember :: pairs.map bare
  behind := []
  before_blank := List.forall_mem_nil _
  space_blank := List.forall_mem_nil _
  behind_blank := List.forall_mem_nil _
  grammatical := List.forall_mem_cons.mpr
    ⟨⟨bare_spaced _, letters_stray, written_digit (by decide)⟩, h.grammatical⟩
  distinct := List.pairwise_cons.mpr
    ⟨fun _ _ chars hkey => (not_spells_stray chars hkey).elim, h.distinct_members⟩

theorem alike_withStray (h : Plain pairs) : Alike h.toDocument.members h.withStray.members :=
  .unknown fun name _ => not_spells_stray name.toList

/-- A member without a field does count if its key does not spell a text. -/
theorem stray_key_counts :
    plain_fade.toDocument.text =
        "\x7b\"type\":\"fade\",\"duration\":1,\"delay\":0,\"easing\":\"ease\"\x7d" ∧
      plain_fade.withStray.text =
        "\x7b\"\\ud800\":0,\"type\":\"fade\",\"duration\":1,\"delay\":0,\"easing\":\"ease\"\x7d" ∧
      Alike plain_fade.toDocument.members plain_fade.withStray.members ∧
      ¬ SameAnswer (load plain_fade.toDocument.text) (load plain_fade.withStray.text) := by
  have hload : load plain_fade.toDocument.text =
      .ok { kind := .family .fade, duration := .ofNat 1 } := by
    decide +kernel
  obtain ⟨reason, hstray⟩ : ∃ reason,
      load plain_fade.withStray.text = .error (.malformed reason) := by
    have hnot (config : Config) :
        ¬ shape.Fills plain_fade.withStray.members default [] config := fun hfills => by
      obtain ⟨chars, hchars⟩ := hfills.named strayMember List.mem_cons_self
      exact not_spells_stray chars hchars
    obtain ⟨reason, hreason⟩ := ofJson_not_fills hnot
    exact ⟨reason, load_malformed hreason⟩
  refine ⟨rfl, rfl, alike_withStray plain_fade, fun hsame => ?_⟩
  rw [hload, hstray] at hsame
  cases hsame

end Config
end AnimationKit
