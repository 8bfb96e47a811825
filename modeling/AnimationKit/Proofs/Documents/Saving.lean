import AnimationKit.Documents.Config
import AnimationKit.Export.Source
import AnimationKit.Preview.Style
import AnimationKit.Proofs.Easing
import AnimationKit.Proofs.Json.Rereading
import AnimationKit.Proofs.Json.Results

/-!
A config that was read is saved as a document that is read again, as the same config up to the
rounding of its curve.
-/
namespace AnimationKit

open Json

theorem readDocument_of_reads {α : Type} {reader : Reader α} {value : α} {text : String}
    (h : Reads reader text.toList value []) : readDocument reader text = .ok value := by
  rw [readDocument, h.run]

theorem readDocument_of_refuses {α : Type} {reader : Reader α} {text : String}
    (h : Refuses reader text.toList) :
    ∃ reason, readDocument reader text = .error (.malformed reason) := by
  obtain ⟨failure, hfailure⟩ := h.run
  exact ⟨_, by rw [readDocument, hfailure]⟩

theorem Kind.ofName_name (name : String) : Kind.ofName (Kind.ofName name).name = Kind.ofName name := by
  generalize hkind : Kind.ofName name = kind
  unfold Kind.ofName at hkind
  split at hkind
  · rename_i f _
    rw [← hkind]
    cases f <;> rfl
  · rename_i hunknown
    rw [← hkind, Kind.name, Kind.ofName, hunknown]

namespace Span

variable {span : Span} {behind : List Char}

/-- Both ends are finite. -/
def Finite (span : Span) : Prop := span.start.isFinite = true ∧ span.stop.isFinite = true

theorem finite_zero : Finite ⟨.zero, .zero⟩ := ⟨by decide, by decide⟩

/-! What is read. -/

theorem gives_read : Gives read Finite := by
  apply RecordShape.gives_read _ finite_zero
  refine List.forall_mem_cons.mpr ⟨?_, List.forall_mem_singleton.mpr ?_⟩
  · exact Gives.bind Reader.gives_double fun x hx => Gives.pure fun span h => ⟨hx, h.2⟩
  · exact Gives.bind Reader.gives_double fun x hx => Gives.pure fun span h => ⟨h.1, hx⟩

theorem mem_of_uniqueMember? {members : List (String × Value)} {key : String} {value : Value}
    (h : uniqueMember? members key = some value) : ∃ name, (name, value) ∈ members := by
  unfold uniqueMember? at h
  split at h
  · rename_i member hfilter
    refine ⟨member.1, ?_⟩
    have hmem : member ∈ members.filter fun member => member.1 == key := by simp [hfilter]
    rw [← Option.some.inj h]
    exact List.mem_of_mem_filter hmem
  · contradiction

theorem finite_of_number {n : Number} (h : (Value.number n).Finite) :
    n.toBinary64.isFinite = true := by
  cases h with
  | number h => exact h

theorem finite_of_anglesOf? {value : Value} (hvalue : value.Finite)
    (h : anglesOf? value = some span) : span.Finite := by
  unfold anglesOf? at h
  split at h
  · rw [← Option.some.inj h]
    exact ⟨finite_zero.1, finite_of_number hvalue⟩
  · rename_i a b
    rw [← Option.some.inj h]
    cases hvalue with
    | array hitems =>
      exact ⟨finite_of_number (hitems _ (by simp)), finite_of_number (hitems _ (by simp))⟩
  · rename_i members
    split at h
    · rename_i a b hstart hstop
      rw [← Option.some.inj h]
      obtain ⟨_, hstart⟩ := mem_of_uniqueMember? hstart
      obtain ⟨_, hstop⟩ := mem_of_uniqueMember? hstop
      cases hvalue with
      | object hmembers =>
        exact ⟨finite_of_number (hmembers _ hstart), finite_of_number (hmembers _ hstop)⟩
    · contradiction
  · contradiction

theorem gives_angles : Gives readAngles Finite := by
  apply Gives.bind (Reader.gives_value _)
  intro value hvalue
  split
  · rename_i span hspan
    exact Gives.pure (finite_of_anglesOf? hvalue hspan)
  · exact Reader.gives_failUnplaced

/-! What is written is read. -/

theorem reads_read (h : Rereads span.start) (h' : Rereads span.stop) :
    Reads read span.toJson.render.toList span behind := by
  have hstart : shape.Stores ("start", .double span.start)
      fun s => { s with start := span.start } := RecordShape.stores_double ⟨_, ⟨_, rfl⟩, rfl⟩ h
  have hstop : shape.Stores ("end", .double span.stop)
      fun s => { s with stop := span.stop } := RecordShape.stores_double ⟨_, ⟨_, rfl⟩, rfl⟩ h'
  apply RecordShape.reads_record _ (.cons hstart (.cons hstop .nil))
  · simp
  · simp [shape]

theorem reads_angles (h : Rereads span.start) (h' : Rereads span.stop) :
    Reads readAngles span.toJson.render.toList span behind := by
  obtain ⟨start, hstart, hreads⟩ := Reader.reads_numberValue h (maxDepth - 2)
  obtain ⟨stop, hstop, hreads'⟩ := Reader.reads_numberValue h' (maxDepth - 2)
  have hvalue : Reads (Reader.value (maxDepth - 1)) span.toJson.render.toList
      (.object [("start", .number start), ("end", .number stop)]) behind :=
    Reader.reads_object (.cons ⟨rfl, hreads⟩ (.cons ⟨rfl, hreads'⟩ .nil))
  have hangles : anglesOf? (.object [("start", .number start), ("end", .number stop)]) =
      some span := by
    simp [anglesOf?, uniqueMember?, hstart, hstop]
  apply Reads.bind_last hvalue
  rw [hangles]
  exact Reads.pure _ _

theorem reads_optional {reader : Reader Span}
    (h : Reads reader span.toJson.render.toList span behind) :
    Reads (Reader.optional reader) span.toJson.render.toList (some span) behind := by
  have hbrace : span.toJson.render.toList.head? = some '\x7b' := by
    rw [toJson, toList_object]
    rfl
  exact Reader.reads_optional h hbrace (by decide) (by decide)

end Span

theorem Axis.reads_name (axis : Axis) {behind : List Char} :
    Reads (Reader.name Axis.named) (quote axis.name).toList axis behind := by
  apply Reader.firstOfValue_bind (head?_quote _) (by decide)
  rw [if_pos rfl]
  apply Reads.bind_last (Reader.reads_quote axis.name)
  cases axis <;> exact Reads.pure _ _

theorem Axis.reads_optional (axis : Axis) {behind : List Char} :
    Reads (Reader.optional (Reader.name Axis.named)) (quote axis.name).toList (some axis) behind :=
  Reader.reads_optional axis.reads_name (head?_quote _) (by decide) (by decide)

namespace Easing

variable {easing : Easing} {text : String} {behind : List Char}

theorem gives_read : Gives read Valid := by
  apply Gives.bind_any
  intro text
  split
  · rename_i easing heasing
    exact Gives.pure (valid_of_ofText heasing)
  · exact Reader.gives_failUnplaced

theorem reads_read (h : ofText text = .ok easing) : Reads read (quote text).toList easing behind := by
  apply Reads.bind_last (Reader.reads_text text)
  rw [h]
  exact Reads.pure _ _

end Easing

theorem Animation.source_easing {easing easing' : Easing} (h : easing'.text = easing.text)
    (family : Family) (duration delay : Binary64) (motion : Motion) (wanted : Option String)
    (format : ExportFormat) :
    Animation.source wanted ⟨family, ⟨duration, delay, easing'⟩, motion⟩ format =
      Animation.source wanted ⟨family, ⟨duration, delay, easing⟩, motion⟩ format := by
  cases format with
  | css =>
    unfold source cssText cssBlock
    dsimp only
    rw [h]
    rfl
  | react =>
    unfold source reactSource ReactComponent.ofAnimation ReactComponent.timingParameters
    dsimp only
    rw [h]
    rfl

namespace Config

variable {config : Config} {easing other : Easing} {text : String} {behind : List Char}

/-! What is read. -/

/-- What holds of every config that is read: its kind is the one that its name stands for, its curve
is one that a text can have, and its numbers are finite. -/
structure Stored (config : Config) : Prop where
  kind : Kind.ofName config.kind.name = config.kind
  duration : config.duration.isFinite = true
  delay : config.delay.isFinite = true
  easing : config.easing.Valid
  opacity : ∀ span ∈ config.opacity, span.Finite
  distance : ∀ x ∈ config.distance, x.isFinite = true
  scale : ∀ x ∈ config.scale, x.isFinite = true
  degrees : ∀ span ∈ config.degrees, span.Finite

theorem stored_default : Stored default where
  kind := rfl
  duration := by decide +kernel
  delay := by decide
  easing := trivial
  opacity := by simp [default]
  distance := by simp [default]
  scale := by simp [default]
  degrees := by simp [default]

theorem keeps_stored : shape.Keeps Stored := by
  unfold RecordShape.Keeps shape
  simp only [List.forall_mem_cons]
  refine ⟨?type, ?duration, ?delay, ?easing, ?opacity, ?distance, ?axis, ?scale, ?degrees,
    List.forall_mem_nil _⟩
  case type =>
    exact Gives.bind_any fun name => Gives.pure fun _ h => { h with kind := Kind.ofName_name name }
  case duration =>
    exact Gives.bind Reader.gives_double fun _ hx => Gives.pure fun _ h => { h with duration := hx }
  case delay =>
    exact Gives.bind Reader.gives_double fun _ hx => Gives.pure fun _ h => { h with delay := hx }
  case easing =>
    exact Gives.bind Easing.gives_read fun _ he => Gives.pure fun _ h => { h with easing := he }
  case opacity =>
    exact Gives.bind (Reader.gives_optional Span.gives_read) fun _ hs =>
      Gives.pure fun _ h => { h with opacity := hs }
  case distance =>
    exact Gives.bind (Reader.gives_optional Reader.gives_double) fun _ hx =>
      Gives.pure fun _ h => { h with distance := hx }
  case axis =>
    exact Gives.bind_any fun _ => Gives.pure fun _ h => { h with }
  case scale =>
    exact Gives.bind (Reader.gives_optional Reader.gives_double) fun _ hx =>
      Gives.pure fun _ h => { h with scale := hx }
  case degrees =>
    exact Gives.bind (Reader.gives_optional Span.gives_angles) fun _ hs =>
      Gives.pure fun _ h => { h with degrees := hs }

theorem stored_of_ofJson (h : ofJson text = .ok config) : config.Stored := by
  unfold ofJson readDocument at h
  split at h
  · rename_i read hread
    rw [← Except.ok.inj h]
    exact (RecordShape.gives_read keeps_stored stored_default).of_run hread
  · contradiction

/-! What is written is read. -/

/-- The members of the document that a config is saved as. -/
def members (config : Config) : List (String × Value) :=
  [("type", .text config.kind.name), ("duration", .double config.duration),
    ("delay", .double config.delay), ("easing", .text config.easing.text)] ++
  optionalMember "opacity" Span.toJson config.opacity ++
  optionalMember "distance" Value.double config.distance ++
  optionalMember "axis" (fun axis => .text axis.name) config.axis ++
  optionalMember "scale" Value.double config.scale ++
  optionalMember "degrees" Span.toJson config.degrees

theorem toJson_eq : config.toJson = .object config.members := rfl

/-- What the members change in the config that reading starts from. -/
def changes (config : Config) (easing : Easing) : List (Config → Config) :=
  [fun c => { c with kind := config.kind }, fun c => { c with duration := config.duration },
    fun c => { c with delay := config.delay }, fun c => { c with easing }] ++
  config.opacity.toList.map (fun span c => { c with opacity := some span }) ++
  config.distance.toList.map (fun x c => { c with distance := some x }) ++
  config.axis.toList.map (fun axis c => { c with axis := some axis }) ++
  config.scale.toList.map (fun x c => { c with scale := some x }) ++
  config.degrees.toList.map (fun span c => { c with degrees := some span })

theorem changed_changes : RecordShape.changed default (config.changes easing) =
    { config with easing } := by
  obtain ⟨kind, duration, delay, _, opacity, distance, axis, scale, degrees⟩ := config
  cases opacity <;> cases distance <;> cases axis <;> cases scale <;> cases degrees <;> rfl

/-- The keys are some of the names of the fields, in their order. -/
theorem keys_sublist : (config.members.map (·.1)).Sublist (shape.fields.map (·.name)) := by
  have hoptional {α : Type} (name : String) (toJson : α → Value) (value : Option α) :
      ((optionalMember name toJson value).map (·.1)).Sublist [name] := by
    cases value with
    | none => exact List.nil_sublist _
    | some a => exact List.Sublist.refl _
  simp only [members, List.map_append]
  exact (((((List.Sublist.refl _).append (hoptional _ _ _)).append (hoptional _ _ _)).append
    (hoptional _ _ _)).append (hoptional _ _ _)).append (hoptional _ _ _)

theorem stores_optional {α : Type} {name : String} {toJson : α → Value} {value : Option α}
    {change : α → Config → Config} (h : ∀ a ∈ value, shape.Stores (name, toJson a) (change a)) :
    List.Forall₂ shape.Stores (optionalMember name toJson value) (value.toList.map change) := by
  cases value with
  | none => exact .nil
  | some a => exact .cons (h a rfl) .nil

/-- The numbers of a config but for those of its curve. -/
def numbers (config : Config) : List Binary64 :=
  [config.duration, config.delay] ++
    (config.opacity.toList ++ config.degrees.toList).flatMap (fun span => [span.start, span.stop]) ++
    config.distance.toList ++ config.scale.toList

theorem stores_kind (name : String) :
    shape.Stores ("type", .text name) fun c => { c with kind := .ofName name } :=
  ⟨_, rfl, fun _ _ => Reads.bind_last (Reader.reads_text name) (Reads.pure _ _)⟩

/-- The curve of a config is read from its text, so it need not be one that a text can have. -/
theorem stores_members (hkind : Kind.ofName config.kind.name = config.kind)
    (hnumbers : ∀ x ∈ config.numbers, Rereads x)
    (heasing : Easing.ofText config.easing.text = .ok easing) :
    List.Forall₂ shape.Stores config.members (config.changes easing) := by
  have hends (span : Span) (hspan : span ∈ config.opacity ∨ span ∈ config.degrees) :
      Rereads span.start ∧ Rereads span.stop := by
    constructor <;> refine hnumbers _ ?_ <;> rcases hspan with hspan | hspan <;>
      simp [numbers, Option.mem_def.mp hspan]
  have htype := stores_kind config.kind.name
  rw [hkind] at htype
  have hduration : shape.Stores ("duration", .double config.duration)
      fun c => { c with duration := config.duration } :=
    RecordShape.stores_double ⟨_, ⟨_, rfl⟩, rfl⟩ (hnumbers config.duration (by simp [numbers]))
  have hdelay : shape.Stores ("delay", .double config.delay)
      fun c => { c with delay := config.delay } :=
    RecordShape.stores_double ⟨_, ⟨_, rfl⟩, rfl⟩ (hnumbers config.delay (by simp [numbers]))
  have heasing' : shape.Stores ("easing", .text config.easing.text) fun c => { c with easing } :=
    ⟨_, rfl, fun _ _ => Reads.bind_last (Easing.reads_read heasing) (Reads.pure _ _)⟩
  refine List.rel_append (List.rel_append (List.rel_append (List.rel_append (List.rel_append
    (.cons htype (.cons hduration (.cons hdelay (.cons heasing' .nil)))) ?opacity) ?distance) ?axis)
      ?scale) ?degrees
  all_goals refine stores_optional fun a ha => ⟨_, rfl, fun _ hend => ?_⟩
  case opacity =>
    obtain ⟨hstart, hstop⟩ := hends a (.inl ha)
    exact Reads.bind_last (Span.reads_optional (Span.reads_read hstart hstop)) (Reads.pure _ _)
  case distance =>
    have hdistance := hnumbers a (by simp [numbers, Option.mem_def.mp ha])
    exact Reads.bind_last (Reader.reads_optionalDouble hdistance hend) (Reads.pure _ _)
  case axis =>
    exact Reads.bind_last (Axis.reads_optional a) (Reads.pure _ _)
  case scale =>
    have hscale := hnumbers a (by simp [numbers, Option.mem_def.mp ha])
    exact Reads.bind_last (Reader.reads_optionalDouble hscale hend) (Reads.pure _ _)
  case degrees =>
    obtain ⟨hstart, hstop⟩ := hends a (.inr ha)
    exact Reads.bind_last (Span.reads_optional (Span.reads_angles hstart hstop)) (Reads.pure _ _)

theorem required_mem : ∀ field ∈ shape.fields, field.required = true →
    field.name ∈ config.members.map (·.1) := by
  simp [shape, members]

theorem reads_shape (hkind : Kind.ofName config.kind.name = config.kind)
    (hnumbers : ∀ x ∈ config.numbers, Rereads x)
    (heasing : Easing.ofText config.easing.text = .ok easing) :
    Reads (shape.read default) config.toJson.render.toList { config with easing } behind := by
  have hnames : (shape.fields.map (·.name)).Nodup := by decide
  have hread : Reads (shape.read default) (Value.object config.members).render.toList
      (RecordShape.changed default (config.changes easing)) behind :=
    RecordShape.reads_record default (stores_members hkind hnumbers heasing)
      (hnames.sublist keys_sublist) required_mem
  rwa [changed_changes, ← toJson_eq] at hread

theorem ofJson_toJson (hkind : Kind.ofName config.kind.name = config.kind)
    (hnumbers : ∀ x ∈ config.numbers, Rereads x)
    (heasing : Easing.ofText config.easing.text = .ok easing) :
    ofJson config.toJson.render = .ok { config with easing } :=
  readDocument_of_reads (reads_shape hkind hnumbers heasing)

theorem rereads_numbers (h : { config with easing := other }.Stored) :
    ∀ x ∈ config.numbers, Rereads x := by
  have hspan : ∀ span ∈ config.opacity.toList ++ config.degrees.toList, span.Finite := by
    intro span hspan
    rcases List.mem_append.mp hspan with hspan | hspan
    · exact h.opacity span (Option.mem_toList.mp hspan)
    · exact h.degrees span (Option.mem_toList.mp hspan)
  intro x hx
  apply rereads_of_finite
  simp only [numbers, List.mem_append, List.mem_flatMap, List.mem_cons, List.not_mem_nil, or_false,
    Option.mem_toList] at hx
  rcases hx with (((rfl | rfl) | ⟨span, hmem, rfl | rfl⟩) | hx) | hx
  · exact h.duration
  · exact h.delay
  · exact (hspan span (by simpa using hmem)).1
  · exact (hspan span (by simpa using hmem)).2
  · exact h.distance x hx
  · exact h.scale x hx

theorem ofJson_of_load (h : load text = .ok config) :
    ofJson text = .ok config ∧ config.validate = .ok () := by
  unfold load at h
  cases hread : ofJson text with
  | error failure =>
    rw [hread] at h
    contradiction
  | ok read =>
    rw [hread] at h
    cases hvalid : read.validate with
    | error failure =>
      have hfail : (Except.error failure >>= fun _ : Unit => pure read) = Except.ok config := by
        rwa [← hvalid]
      contradiction
    | ok u =>
      have hpass : (Except.ok u >>= fun _ : Unit => pure read) = (Except.ok config : Except ConfigError _) := by
        rwa [← hvalid]
      obtain rfl := Except.ok.inj hpass
      exact ⟨rfl, hvalid⟩

/-! The curve does not matter but for its text. -/

theorem validate_easing : { config with easing }.validate = config.validate := rfl

theorem token?_easing : Preview.token? { config with easing } = Preview.token? config := rfl

theorem toJson_easing (h : easing.text = config.easing.text) :
    { config with easing }.toJson = config.toJson := by
  unfold toJson
  rw [h]

theorem properties_easing (h : easing.text = config.easing.text) :
    Preview.properties { config with easing } = Preview.properties config := by
  have htiming : Preview.timingProperties { config with easing } =
      Preview.timingProperties config := by
    funext family
    unfold Preview.timingProperties
    rw [h]
  unfold Preview.properties
  rw [htiming]
  rfl

theorem motion_easing (family : Family) :
    Motion.ofConfig { config with easing } family = Motion.ofConfig config family := by
  cases family <;> rfl

theorem source_easing (h : easing.text = config.easing.text) (format : ExportFormat)
    (settings : Settings) : { config with easing }.source format settings =
      config.source format settings := by
  unfold Config.source Animation.ofConfig
  rw [validate_easing]
  dsimp only
  split
  · rfl
  · split
    · rfl
    · rw [motion_easing, Except.map, Except.map, Animation.source_easing h]

theorem load_toJson (h : config.Stored) (hvalid : config.validate = .ok ())
    (heasing : Easing.ofText config.easing.text = .ok easing) :
    load config.toJson.render = .ok { config with easing } := by
  have hstored : { config with easing := config.easing }.Stored := h
  rw [load, ofJson_toJson h.kind (rereads_numbers hstored) heasing]
  show ({ config with easing }.validate >>= fun _ => _) = _
  rw [validate_easing, hvalid]
  rfl

/-- A config that was loaded is saved as a document that is loaded again. Nothing but its curve can
change: that is read from the text in which it is written, with rounded control points. If it is
written in the same way again, then the document, the preview and both exports are the same, too. -/
theorem saved_reloads (h : load text = .ok config) :
    ∃ reloaded, load config.toJson.render = .ok reloaded ∧
      { reloaded with easing := config.easing } = config ∧
      Easing.ofText config.easing.text = .ok reloaded.easing ∧
      Preview.token? reloaded = Preview.token? config ∧
      (∀ curve, config.easing = .named curve → reloaded.easing = .named curve) ∧
      (reloaded.easing.text = config.easing.text →
        reloaded.toJson.render = config.toJson.render ∧
        Preview.properties reloaded = Preview.properties config ∧
        ∀ format settings, reloaded.source format settings = config.source format settings) := by
  obtain ⟨hread, hvalid⟩ := ofJson_of_load h
  have hstored := stored_of_ofJson hread
  obtain ⟨easing, heasing⟩ := Easing.ofText_text hstored.easing
  refine ⟨{ config with easing }, load_toJson hstored hvalid heasing, rfl, heasing, token?_easing,
    ?_, fun htext => ⟨?_, properties_easing htext, source_easing htext⟩⟩
  · intro curve hcurve
    rw [hcurve, Easing.ofText_named] at heasing
    exact (Except.ok.inj heasing).symm
  · rw [toJson_easing htext]

/-- A quarter of a turn with a curve that four decimals are not enough for, and with the axis of
another family. -/
def quarterTurn : Config :=
  { kind := .family .rotate
    duration := .ofNat 1
    easing := .cubicBezier (.ofQuotient 2469 20000) .zero (.ofQuotient 1 2) (.ofNat 1)
    axis := some .y
    degrees := some ⟨.zero, .ofNat 90⟩ }

/-- A document with that config, the numbers written in other ways than they are saved in. -/
def quarterTurnDocument : String :=
  "\x7b\"type\": \"rotate\", \"duration\": 1, \"delay\": 0e3, \"axis\": \"y\", " ++
    "\"easing\": \" cubic-bezier(0.12345, 0, .5, 1) \", \"degrees\": 90\x7d"

theorem saved_reloads_quarterTurn :
    load quarterTurnDocument = .ok quarterTurn ∧
    ∃ reloaded, load quarterTurn.toJson.render = .ok reloaded ∧
      { reloaded with easing := quarterTurn.easing } = quarterTurn ∧
      Easing.ofText quarterTurn.easing.text = .ok reloaded.easing := by
  have hload : load quarterTurnDocument = .ok quarterTurn := by decide +kernel
  obtain ⟨reloaded, hreloaded, hsame, heasing, -⟩ := saved_reloads hload
  exact ⟨hload, reloaded, hreloaded, hsame, heasing⟩

end Config
end AnimationKit
