import AnimationKit.Json.Structure
import AnimationKit.Proofs.Binary64.Shortest
import AnimationKit.Proofs.Decimal.Reading

/-! Strings and numbers are read back from their text, whatever stands behind it. -/
namespace AnimationKit.Json

variable {α β : Type} {reader : Reader α} {next : α → Reader β} {value : α} {result : β}
  {before middle behind : List Char} {c : Char}

/-- A reader takes a text, up to what stands behind it, and gives a value. Bytes are not counted. -/
def Reads (reader : Reader α) (before : List Char) (value : α) (behind : List Char) : Prop :=
  ∀ offset, ∃ offset', reader ⟨before ++ behind, offset⟩ = .ok (value, ⟨behind, offset'⟩)

theorem bind_apply {cursor after : Cursor} (h : reader cursor = .ok (value, after)) :
    (reader >>= next) cursor = next value after := by
  show Except.bind (reader cursor) _ = _
  rw [h]
  rfl

namespace Reads

theorem pure (value : α) (behind : List Char) : Reads (Pure.pure value) [] value behind :=
  fun offset => ⟨offset, rfl⟩

theorem bind (h : Reads reader before value (middle ++ behind))
    (hnext : Reads (next value) middle result behind) :
    Reads (reader >>= next) (before ++ middle) result behind := by
  intro offset
  obtain ⟨offset', hfirst⟩ := h offset
  obtain ⟨offset'', hsecond⟩ := hnext offset'
  exact ⟨offset'', by rw [List.append_assoc, bind_apply hfirst, hsecond]⟩

theorem bind_last (h : Reads reader before value behind)
    (hnext : Reads (next value) [] result behind) :
    Reads (reader >>= next) before result behind := by
  have hbind : Reads (reader >>= next) (before ++ []) result behind := bind h hnext
  rwa [List.append_nil] at hbind

theorem map {f : α → β} (h : Reads reader before value behind) :
    Reads (f <$> reader) before (f value) behind := by
  have hbind : Reads (reader >>= fun a => Pure.pure (f a)) before (f value) behind :=
    bind_last h (pure (f value) behind)
  exact hbind

/-- A text that is read to its end has the value that was read. -/
theorem run {text : List Char} (h : Reads reader text value []) : reader.run text = .ok value := by
  obtain ⟨offset, hread⟩ := h 0
  rw [List.append_nil, ← Cursor.start] at hread
  have hwhole : reader.whole (Cursor.start text) = .ok (value, ⟨[], offset⟩) := by
    rw [Reader.whole, bind_apply hread]
    rfl
  rw [Reader.run, hwhole]

end Reads

theorem forall_head? {property : Char → Prop} {chars : List Char} (h : property c) :
    ∀ d ∈ (c :: chars).head?, property d := by
  intro d hd
  rwa [← Option.some.inj hd]

namespace Reader

/-! Single steps. -/

theorem reads_next : Reads Reader.next [c] () behind := fun _ => ⟨_, rfl⟩

theorem reads_peek : Reads peek [] behind.head? behind := fun offset => ⟨offset, rfl⟩

theorem reads_ahead : Reads ahead [] behind.length behind := fun offset => ⟨offset, rfl⟩

theorem reads_skipSpace (h : ∀ c ∈ behind.head?, isSpace c = false) :
    Reads skipSpace [] () behind := by
  intro offset
  cases behind with
  | nil => exact ⟨offset, rfl⟩
  | cons c behind =>
    have hc : isSpace c = false := h c rfl
    refine ⟨offset, ?_⟩
    simp [skipSpace, Cursor.skipAll, hc]

theorem next_bind {rest : Unit → Reader α} (h : Reads (rest ()) before value behind) :
    Reads (Reader.next >>= rest) (c :: before) value behind :=
  Reads.bind reads_next h

theorem peek_bind {rest : Option Char → Reader α}
    (h : Reads (rest (before ++ behind).head?) before value behind) :
    Reads (peek >>= rest) before value behind :=
  Reads.bind reads_peek h

theorem ahead_bind {rest : Nat → Reader α}
    (h : Reads (rest (before ++ behind).length) before value behind) :
    Reads (ahead >>= rest) before value behind :=
  Reads.bind reads_ahead h

theorem skipSpace_bind {rest : Unit → Reader α}
    (hspace : ∀ c ∈ (before ++ behind).head?, isSpace c = false)
    (h : Reads (rest ()) before value behind) :
    Reads (skipSpace >>= rest) before value behind :=
  Reads.bind (reads_skipSpace hspace) h

theorem get_bind {rest : Cursor → Reader α}
    (h : ∀ cursor, Reads (rest cursor) before value behind) :
    Reads (get >>= rest) before value behind :=
  fun offset => h ⟨before ++ behind, offset⟩ offset

/-- The digits up to the first character that is none. -/
theorem reads_digits (h : ∀ c ∈ before, c.isDigit = true)
    (hbehind : ∀ c ∈ behind.head?, c.isDigit = false) : Reads digits before before behind := by
  have htake : (before ++ behind).takeWhile Char.isDigit = before := by
    rw [List.takeWhile_append_of_pos h]
    cases behind with
    | nil => simp
    | cons c behind => simp [hbehind c rfl]
  have hdrop : (before ++ behind).dropWhile Char.isDigit = behind := by
    rw [List.dropWhile_append_of_pos h]
    cases behind with
    | nil => simp
    | cons c behind => simp [hbehind c rfl]
  intro offset
  refine ⟨offset + before.length, ?_⟩
  simp only [digits, Cursor.skipAll, htake, hdrop]

/-! Strings. -/

/-- A control character is written with four digits that its number is read from. -/
theorem hexNumber?_control : ∀ n < 32, ∃ digits, controlEscape (Char.ofNat n) = '\\' :: 'u' :: digits ∧
    digits.length = 4 ∧ utf8Length digits = 4 ∧ hexNumber? digits = some n := by
  intro n hn
  refine ⟨(controlEscape (Char.ofNat n)).drop 2, ?_⟩
  revert n
  decide

theorem reads_hexEscape {n : Nat} (hlength : before.length = 4) (hbytes : utf8Length before = 4)
    (hnumber : hexNumber? before = some n) : Reads hexEscape before n behind := by
  intro offset
  have htake : (before ++ behind).take 4 = before := List.take_left' hlength
  have hdrop : (before ++ behind).drop 4 = behind := List.drop_left' hlength
  refine ⟨offset + 4, ?_⟩
  simp [hexEscape, htake, hdrop, hbytes, hnumber]

theorem reads_escape_control (h : c < ' ') :
    ∃ rest, controlEscape c = '\\' :: rest ∧ Reads escape rest c behind := by
  have hn : c.toNat < 32 := UInt32.lt_iff_toNat_lt.mp h
  obtain ⟨digits, hescape, hlength, hbytes, hnumber⟩ := hexNumber?_control c.toNat hn
  rw [Char.ofNat_toNat] at hescape
  refine ⟨'u' :: digits, hescape, ?_⟩
  have htrailing : isTrailingSurrogate c.toNat = false := by
    simp [isTrailingSurrogate]
    omega
  have hleading : isLeadingSurrogate c.toNat = false := by
    simp [isLeadingSurrogate]
    omega
  have hnumeric : Reads numericEscape digits c behind := by
    apply Reads.bind_last (reads_hexEscape hlength hbytes hnumber)
    simp only [htrailing, hleading, Bool.false_eq_true, if_false, Char.ofNat_toNat]
    exact Reads.pure c behind
  exact peek_bind (next_bind hnumeric)

theorem ne_u_of_simpleEscape? {mark : Char} (h : simpleEscape? mark = some c) : mark ≠ 'u' := by
  rintro rfl
  cases h

theorem reads_escape_simple {mark : Char} (h : simpleEscape? mark = some c) :
    Reads escape [mark] c behind := by
  apply peek_bind
  simp only [List.cons_append, List.head?_cons, ne_u_of_simpleEscape? h, if_false, h]
  exact next_bind (Reads.pure c behind)

/-- A character of a string stands for itself, or behind a backslash. -/
theorem escapedChar_cases (c : Char) (behind : List Char) :
    (escapedChar c = [c] ∧ c ≠ '"' ∧ c ≠ '\\' ∧ ¬ c < ' ') ∨
      ∃ rest, escapedChar c = '\\' :: rest ∧ Reads escape rest c behind := by
  unfold escapedChar
  by_cases hquote : c = '"'
  · rw [if_pos hquote]
    exact Or.inr ⟨_, rfl, reads_escape_simple (by rw [hquote]; rfl)⟩
  by_cases hbackslash : c = '\\'
  · rw [if_neg hquote, if_pos hbackslash]
    exact Or.inr ⟨_, rfl, reads_escape_simple (by rw [hbackslash]; rfl)⟩
  rw [if_neg hquote, if_neg hbackslash]
  split
  · rename_i h
    exact Or.inr ⟨_, rfl, reads_escape_simple (by rw [h]; rfl)⟩
  split
  · rename_i h
    exact Or.inr ⟨_, rfl, reads_escape_simple (by rw [h]; rfl)⟩
  split
  · rename_i h
    exact Or.inr ⟨_, rfl, reads_escape_simple (by rw [h]; rfl)⟩
  split
  · rename_i h
    exact Or.inr ⟨_, rfl, reads_escape_simple (by rw [h]; rfl)⟩
  split
  · rename_i h
    exact Or.inr ⟨_, rfl, reads_escape_simple (by rw [h]; rfl)⟩
  split
  · rename_i hcontrol
    exact Or.inr (reads_escape_control hcontrol)
  · rename_i hcontrol
    exact Or.inl ⟨rfl, hquote, hbackslash, hcontrol⟩

theorem reads_stringRest (chars read : List Char) {bound : Nat} (h : chars.length < bound) :
    Reads (stringRest bound read) (chars.flatMap escapedChar ++ ['"'])
      (String.ofList (read.reverse ++ chars)) behind := by
  induction chars generalizing bound read with
  | nil =>
    obtain ⟨bound, rfl⟩ := Nat.exists_eq_add_one.mpr h
    rw [List.append_nil]
    exact peek_bind (next_bind (Reads.pure _ behind))
  | cons c chars ih =>
    obtain ⟨bound, rfl⟩ := Nat.exists_eq_add_one.mpr (Nat.zero_lt_of_lt h)
    have hrest : Reads (stringRest bound (c :: read)) (chars.flatMap escapedChar ++ ['"'])
        (String.ofList (read.reverse ++ c :: chars)) behind := by
      have hread := ih (c :: read) (Nat.lt_of_succ_lt_succ h)
      rwa [List.reverse_cons, List.append_assoc, List.singleton_append] at hread
    rw [List.flatMap_cons, List.append_assoc]
    rcases escapedChar_cases c (chars.flatMap escapedChar ++ ['"'] ++ behind) with
      ⟨hself, hquote, hbackslash, hcontrol⟩ | ⟨rest, hescape, hmeaning⟩
    · rw [hself]
      apply peek_bind
      simp only [List.cons_append, List.head?_cons, hquote, hbackslash, hcontrol, if_false]
      exact next_bind hrest
    · rw [hescape]
      exact peek_bind (next_bind (Reads.bind hmeaning hrest))

theorem length_le_escaped (chars : List Char) : chars.length ≤ (chars.flatMap escapedChar).length := by
  induction chars with
  | nil => exact Nat.le_refl _
  | cons c chars ih =>
    have hpos : 0 < (escapedChar c).length := by
      rcases escapedChar_cases c [] with ⟨hself, -⟩ | ⟨rest, hescape, -⟩
      · simp [hself]
      · simp [hescape]
    rw [List.flatMap_cons, List.length_append, List.length_cons]
    omega

/-- A string is read back from its text. -/
theorem reads_quote (text : String) : Reads quotedString (quote text).toList text behind := by
  rw [quote, String.toList_ofList, List.cons_append]
  apply next_bind
  apply ahead_bind
  have hlength := length_le_escaped text.toList
  have hbound : text.toList.length <
      (text.toList.flatMap escapedChar ++ ['"'] ++ behind).length + 1 := by
    simp only [List.length_append, List.length_cons]
    omega
  have hstring : Reads _ _ _ behind := reads_stringRest text.toList [] hbound
  rwa [List.reverse_nil, List.nil_append, String.ofList_toList] at hstring

end Reader
end AnimationKit.Json
