import AnimationKit.Proofs.Text.Cutting
import AnimationKit.Text.Blank

/-! Text without the blanks around it. -/
namespace AnimationKit.Text

variable {text inside before behind chars : List Char}

/-- The text has no blank at either end. -/
structure Tight (inside : List Char) : Prop where
  first : ∀ c ∈ inside.head?, isBlank c = false
  last : ∀ c ∈ inside.getLast?, isBlank c = false

/-- A text is another one with blanks around it, and that other one has none at its ends. -/
structure Trims (text inside : List Char) : Prop where
  tight : Tight inside
  around : ∃ before behind, text = before ++ inside ++ behind ∧
    (∀ c ∈ before, isBlank c = true) ∧ ∀ c ∈ behind, isBlank c = true

theorem dropWhile_of_head? (h : ∀ c ∈ chars.head?, isBlank c = false) :
    chars.dropWhile isBlank = chars := by
  cases chars with
  | nil => rfl
  | cons c chars => simp [h c rfl]

theorem dropWhile_blanks (hbefore : ∀ c ∈ before, isBlank c = true)
    (hchars : ∀ c ∈ chars.head?, isBlank c = false) :
    (before ++ chars).dropWhile isBlank = chars := by
  rw [List.dropWhile_append_of_pos hbefore, dropWhile_of_head? hchars]

theorem head?_dropWhile : ∀ c ∈ (chars.dropWhile isBlank).head?, isBlank c = false := by
  intro c hc
  have hnot := List.head?_dropWhile_not isBlank chars
  rw [Option.mem_def.mp hc] at hnot
  simpa using hnot

theorem Trims.eq_trim (h : Trims text inside) : inside = trim text := by
  obtain ⟨⟨hfirst, hlast⟩, before, behind, rfl, hbefore, hbehind⟩ := h
  have hreverse : ∀ c ∈ behind.reverse, isBlank c = true := by simpa using hbehind
  have hend : trimEnd (inside ++ behind) = inside := by
    rw [trimEnd, List.reverse_append, dropWhile_blanks hreverse (by rwa [List.head?_reverse]),
      List.reverse_reverse]
  cases inside with
  | nil =>
    have hall : ∀ c ∈ before ++ behind, isBlank c = true := fun c hc =>
      (List.mem_append.mp hc).elim (hbefore c) (hbehind c)
    rw [List.append_nil, trim, trimStart, List.dropWhile_eq_nil_iff.mpr hall]
    rfl
  | cons c inside =>
    rw [trim, trimStart, List.append_assoc, dropWhile_blanks hbefore (by simpa using hfirst), hend]

theorem trims_trim (text : List Char) : Trims text (trim text) := by
  have hstart : text = text.takeWhile isBlank ++ trimStart text :=
    List.takeWhile_append_dropWhile.symm
  have hend : trimStart text =
      trim text ++ ((trimStart text).reverse.takeWhile isBlank).reverse := by
    rw [trim, trimEnd, ← List.reverse_append, List.takeWhile_append_dropWhile,
      List.reverse_reverse]
  have hlast : ∀ c ∈ (trim text).getLast?, isBlank c = false := by
    rw [trim, trimEnd, List.getLast?_reverse]
    exact head?_dropWhile
  have hfirst : ∀ c ∈ (trim text).head?, isBlank c = false := by
    intro c hc
    have hhead : ∀ c ∈ (trimStart text).head?, isBlank c = false := head?_dropWhile
    rw [hend] at hhead
    refine hhead c ?_
    rw [List.head?_append, Option.mem_def.mp hc]
    rfl
  refine ⟨⟨hfirst, hlast⟩, text.takeWhile isBlank,
    ((trimStart text).reverse.takeWhile isBlank).reverse, ?_, fun c hc => ?_, fun c hc => ?_⟩
  · rw [List.append_assoc, ← hend]
    exact hstart
  · exact List.mem_takeWhile_imp hc
  · exact List.mem_takeWhile_imp (List.mem_reverse.mp hc)

theorem trims_iff : Trims text inside ↔ inside = trim text :=
  ⟨Trims.eq_trim, fun h => h ▸ trims_trim text⟩

/-- Only blanks at the ends are taken off. -/
theorem trim_of_ends (hfirst : ∀ c ∈ chars.head?, isBlank c = false)
    (hlast : ∀ c ∈ chars.getLast?, isBlank c = false) : trim chars = chars :=
  (Trims.eq_trim ⟨⟨hfirst, hlast⟩, [], [], by simp, by simp, by simp⟩).symm

theorem trim_of_forall (h : ∀ c ∈ chars, isBlank c = false) : trim chars = chars :=
  trim_of_ends (fun c hc => h c (List.mem_of_head? hc)) fun c hc => h c (List.mem_of_getLast? hc)

theorem trim_blank_cons : trim (' ' :: chars) = trim chars := by
  have hblank : isBlank ' ' = true := by decide
  rw [trim, trimStart, List.dropWhile_cons_of_pos hblank]
  rfl

theorem isBlank_number {c : Char} (h : c.isDigit = true ∨ c = '.' ∨ c = '-') :
    isBlank c = false := by
  rcases h with h | rfl | rfl
  · simp only [Char.isDigit, Bool.and_eq_true, decide_eq_true_eq] at h
    have hlow := UInt32.le_iff_toNat_le.mp h.1
    have hhigh := UInt32.le_iff_toNat_le.mp h.2
    have hval : c.val.toNat = c.toNat := rfl
    simp at hlow hhigh
    simp [isBlank, blankRanges]
    omega
  · decide
  · decide

end AnimationKit.Text
