import AnimationKit.Proofs.Json.Typing

/-!
Numbers in their own text. The text of a finite double is a numeral, so it is taken as one and the
same number wherever it stands, or refused. That this is the double again rests on how exactly the
reader rounds, and what relies on that says so by `Rereads`.
-/
namespace AnimationKit.Json

variable {α β : Type} {reader : Reader α} {ends : List Char → Prop} {text : List Char}
  {x : Binary64} {outcome : Option α} {d : Decimal}

/-! What a reader makes of a text. -/

/-- A reader takes a text as some value, or refuses it. -/
def Gets (ends : List Char → Prop) (reader : Reader α) (text : List Char) : Option α → Prop
  | some value => Takes ends reader text value
  | none => Denies ends reader text

theorem Settled.exists_gets (h : Settled ends reader text) :
    ∃ outcome, Gets ends reader text outcome := by
  rcases h with ⟨value, htakes⟩ | hdenies
  · exact ⟨some value, htakes⟩
  · exact ⟨none, hdenies⟩

namespace Gets

theorem map {f : α → β} (h : Gets ends reader text outcome) :
    Gets ends (f <$> reader) text (outcome.map f) := by
  cases outcome with
  | some value => exact fun behind hend => .map (h behind hend)
  | none => exact fun behind hend => .map (h behind hend)

theorem run (h : Gets ends reader text outcome) (hend : ends []) :
    (reader.run text).toOption = outcome := by
  cases outcome with
  | some value =>
    rw [(h [] hend).run]
    rfl
  | none =>
    have hrefuses := h [] hend
    rw [List.append_nil] at hrefuses
    obtain ⟨failure, hfailure⟩ := hrefuses.run
    rw [hfailure]
    rfl

end Gets

/-! The text of a double. -/

theorem exponent_written (n : Int) :
    ∃ power, Literal.Exponent power
      ('e' :: (if n < 0 then '-' else '+') :: Nat.toDigits 10 n.natAbs) := by
  have hdigits : Literal.Digits (Nat.toDigits 10 n.natAbs) := Literal.digits_iff.mpr fun c hc =>
    Nat.isDigit_of_mem_toDigits (by decide) (by decide) hc
  split
  · exact ⟨_, .power (.inl rfl) .minus Nat.toDigits_ne_nil hdigits⟩
  · exact ⟨_, .power (.inl rfl) .plus Nat.toDigits_ne_nil hdigits⟩

theorem scientificChars_eq (d : Decimal) :
    ∃ whole fraction exponent power, d.scientificChars = whole ++ (fraction ++ exponent) ∧
      WholePart whole ∧ FractionPart fraction ∧ Literal.Exponent power exponent := by
  obtain ⟨first, rest, hdigits⟩ := List.exists_cons_of_ne_nil d.digits_ne_nil
  have hdigit : Literal.Digits (first :: rest) := Literal.digits_iff.mpr fun c hc =>
    Decimal.isDigit_of_mem_digits (hdigits ▸ hc)
  obtain ⟨power, hpower⟩ := exponent_written (d.pointPlace - 1)
  have hwhole : WholePart [first] := by
    refine ⟨List.forall_mem_singleton.mpr (hdigit first List.mem_cons_self), by simp, ?_⟩
    by_cases hzero : first = '0'
    · exact .inl (by rw [hzero])
    · exact .inr (by simpa using hzero)
  have hrest : Literal.Digits rest := fun c hc => hdigit c (List.mem_cons_of_mem _ hc)
  unfold Decimal.scientificChars
  rw [hdigits]
  cases rest with
  | nil => exact ⟨_, [], _, power, rfl, hwhole, .none, hpower⟩
  | cons c rest =>
    exact ⟨_, '.' :: c :: rest, _, power, rfl, hwhole, .point hrest (by simp), hpower⟩

theorem numeral_chars (hzero : d.coefficient = 0 → d.exponent = 0) : Numeral (d.chars layout) := by
  obtain ⟨whole, fraction, exponent, power, htext, hwhole, hfraction, hpower⟩ :
      ∃ whole fraction exponent power,
        (if layout.isPositional (d.pointPlace - 1) then d.positionalChars layout.wholeSuffix
          else d.scientificChars) = whole ++ (fraction ++ exponent) ∧
        WholePart whole ∧ FractionPart fraction ∧ Literal.Exponent power exponent := by
    split
    · obtain ⟨whole, fraction, htext, hdigits, hne, hstart, hfraction, hfractionNe, -⟩ :=
        Reader.positionalChars_eq hzero
      exact ⟨whole, '.' :: fraction, [], 0, by rwa [List.append_nil],
        ⟨Literal.digits_iff.mpr hdigits, hne, hstart⟩,
        .point (Literal.digits_iff.mpr hfraction) hfractionNe, .none⟩
    · exact scientificChars_eq d
  unfold Decimal.chars
  dsimp only
  rw [htext]
  split
  · exact .minus hwhole hfraction hpower
  · exact .unsigned hwhole hfraction hpower

theorem numeral_double (h : x.isFinite = true) : Numeral (Value.double x).render.toList := by
  rw [Reader.render_double h]
  cases x with
  | nan => simp [Binary64.isFinite] at h
  | signed negative rank hrank =>
    rw [doubleText, if_neg (Binary64.isFinite_signed.mp h), Decimal.text, String.toList_ofList]
    by_cases hcoefficient : (Binary64.shortest .even negative rank).coefficient = 0
    · rw [Binary64.shortest_of_coefficient hrank hcoefficient]
      exact numeral_chars fun _ => rfl
    · exact numeral_chars fun h => absurd h hcoefficient

/-- The text of a double is a numeral, or `null`. -/
theorem written_double (x : Binary64) : Written (Value.double x).render.toList := by
  cases hfinite : x.isFinite with
  | false =>
    rw [Reader.render_double_of_not_finite hfinite]
    exact .null
  | true => exact .number (numeral_double hfinite)

/-! Reading it. -/

/-- What is read from the text of a number, if that is read as a number. -/
def reread? (x : Binary64) : Option Binary64 :=
  (Reader.double.run (Value.double x).render.toList).toOption

/-- A number is read back from its own text. -/
def Rereads (x : Binary64) : Prop := reread? x = some x

/-- What is not finite is written as `null`, and that is no number. -/
theorem reread?_of_not_finite (h : x.isFinite = false) : reread? x = none := by
  unfold reread?
  rw [Reader.render_double_of_not_finite h]
  rfl

namespace Reader

theorem gets_double (x : Binary64) :
    Gets EndsNumber double (Value.double x).render.toList (reread? x) := by
  obtain ⟨outcome, hgets⟩ := (settled_double (written_double x)).exists_gets
  have hrun : reread? x = outcome := hgets.run endsNumber_nil
  rwa [hrun]

variable {y : Binary64} {behind : List Char}

theorem reads_reread (h : reread? x = some y) (hbehind : EndsNumber behind) :
    Reads double (Value.double x).render.toList y behind := by
  have hread := gets_double x
  rw [h] at hread
  exact hread behind hbehind

theorem numeral_of_reread? (h : reread? x = some y) : Numeral (Value.double x).render.toList := by
  cases hfinite : x.isFinite with
  | false =>
    rw [reread?_of_not_finite hfinite] at h
    cases h
  | true => exact numeral_double hfinite

theorem reads_optionalDouble (h : reread? x = some y) (hbehind : EndsNumber behind) :
    Reads (optional double) (Value.double x).render.toList (some y) behind := by
  obtain ⟨c, hc, hstart⟩ := head?_numeral (numeral_of_reread? h)
  refine reads_optional (reads_reread h hbehind) hc (isSpace_of_startsNumber hstart) ?_
  rintro rfl
  exact absurd hstart (by decide)

/-- A numeral is read as a double if it is read as a number. -/
theorem gets_double_of_number {number? : Option Number} (hnumeral : Numeral text)
    (h : Gets EndsNumber number text number?) :
    Gets EndsNumber double text (number?.map Number.toBinary64) := by
  obtain ⟨c, hc, hstart⟩ := head?_numeral hnumeral
  have hfirst : SameOn text double (Number.toBinary64 <$> number) := by
    have hsame : SameOn text double _ := firstOfValue_on hc (isSpace_of_startsNumber hstart)
    rwa [if_pos hstart] at hsame
  cases number? with
  | some n => exact hfirst.takes fun behind hend => .map (h behind hend)
  | none => exact hfirst.denies fun behind hend => .map (h behind hend)

/-- Among values of any kind a number is read as one that is the same double. -/
theorem reads_numberValue (h : reread? x = some y) (depth : Nat) :
    ∃ n : Number, n.toBinary64 = y ∧ ∀ behind, EndsNumber behind →
      Reads (Reader.value depth) (Value.double x).render.toList (.number n) behind := by
  have hnumeral := numeral_of_reread? h
  obtain ⟨c, hc, hstart⟩ := head?_numeral hnumeral
  obtain ⟨number?, hnumber⟩ := (settled_number hnumeral).exists_gets
  have hrun : reread? x = number?.map Number.toBinary64 :=
    (gets_double_of_number hnumeral hnumber).run endsNumber_nil
  rw [h] at hrun
  cases number? with
  | none => cases hrun
  | some n =>
    refine ⟨n, (Option.some.inj hrun).symm, fun behind hend => ?_⟩
    cases depth <;> exact reads_byFirst_number hc hstart (.map (hnumber behind hend))

end Reader

namespace RecordShape

variable {shape : RecordShape α} {name : String} {change : α → α} {y : Binary64}

/-- The field of this name is a number that a record is updated with. -/
def NumberField (shape : RecordShape α) (name : String) (update : Binary64 → α → α) : Prop :=
  ∃ required, shape.fields.find? (fun field => field.name == name) =
    some ⟨name, required, do let x ← Reader.double; pure (update x)⟩

theorem stores_double (hfield : ∃ update, shape.NumberField name update ∧ update y = change)
    (h : reread? x = some y) : shape.Stores (name, .double x) change := by
  obtain ⟨update, ⟨required, hfield⟩, rfl⟩ := hfield
  exact ⟨_, hfield, fun _ hend => Reads.bind_last (Reader.reads_reread h hend) (Reads.pure _ _)⟩

theorem rejects_double (hfield : ∃ update, shape.NumberField name update)
    (h : reread? x = none) : shape.Rejects (name, .double x) := by
  obtain ⟨update, required, hfield⟩ := hfield
  have hread := Reader.gets_double x
  rw [h] at hread
  exact ⟨_, hfield, fun behind hend => .bind (hread behind hend)⟩

theorem settles_double (hfield : ∃ update, shape.NumberField name update) :
    (∃ change, shape.Stores (name, .double x) change) ∨ shape.Rejects (name, .double x) := by
  cases h : reread? x with
  | none => exact .inr (rejects_double hfield h)
  | some y =>
    obtain ⟨update, hfield⟩ := hfield
    exact .inl ⟨_, stores_double ⟨update, hfield, rfl⟩ h⟩

end RecordShape

/-- The reader rounds to the nearest double, so that it reads back every number that has a text. -/
theorem rereads_of_finite (h : x.isFinite = true) : Rereads x := by
  have hread : Reads Reader.double (Value.double x).render.toList x [] :=
    Reader.reads_double h endsNumber_nil
  rw [Rereads, reread?, hread.run]
  rfl

end AnimationKit.Json
