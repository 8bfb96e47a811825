import AnimationKit.Text.Split
import Mathlib.Data.List.TakeWhile
import Mathlib.Tactic.Common

/-! Text that was joined from pieces is cut into the same pieces again. -/
namespace AnimationKit.Text

variable {mark : Char} {marks other chars before behind : List Char} {pieces : List (List Char)}

/-- None of the marks stands in a text. -/
def Avoids (marks chars : List Char) : Prop := ∀ c ∈ chars, c ∉ marks

instance : Decidable (Avoids marks chars) :=
  List.decidableBAll (fun c => c ∉ marks) chars

theorem Avoids.append (h : Avoids marks before) (h' : Avoids marks behind) :
    Avoids marks (before ++ behind) :=
  fun c hc => (List.mem_append.mp hc).elim (h c) (h' c)

theorem avoids_append :
    Avoids marks (before ++ behind) ↔ Avoids marks before ∧ Avoids marks behind :=
  List.forall_mem_append

theorem Avoids.mono (h : Avoids other chars) (hsub : marks ⊆ other) : Avoids marks chars :=
  fun c hc hm => h c hc (hsub hm)

theorem Avoids.not_mem (h : Avoids marks chars) (hm : mark ∈ marks) : mark ∉ chars :=
  fun hc => h mark hc hm

/-! Pieces between marks. -/

section pieces

variable {α : Type} [DecidableEq α] {stop : α} {first rest items : List α} {parts : List (List α)}

theorem splitOn_append (h : stop ∉ first) :
    splitOn stop (first ++ stop :: rest) = first :: splitOn stop rest := by
  induction first with
  | nil => simp [splitOn]
  | cons a first ih =>
    rw [List.mem_cons, not_or] at h
    obtain ⟨hne, hnot⟩ := h
    simp [splitOn, Ne.symm hne, ih hnot]

theorem splitOn_of_not_mem (h : stop ∉ items) : splitOn stop items = [items] := by
  induction items with
  | nil => rfl
  | cons a items ih =>
    rw [List.mem_cons, not_or] at h
    obtain ⟨hne, hnot⟩ := h
    simp [splitOn, Ne.symm hne, ih hnot]

/-- Parts with a mark behind each of them. -/
theorem splitOn_flatMap (h : ∀ part ∈ parts, stop ∉ part) :
    splitOn stop (parts.flatMap (fun part => part ++ [stop]) ++ rest) =
      parts ++ splitOn stop rest := by
  induction parts with
  | nil => rfl
  | cons part parts ih =>
    have hpart : stop ∉ part := h part List.mem_cons_self
    have hrest := ih fun p hp => h p (List.mem_cons_of_mem _ hp)
    rw [List.flatMap_cons, List.append_assoc, List.append_assoc, List.singleton_append,
      splitOn_append hpart, List.cons_append, ← hrest]

theorem splitOn_ne_nil (stop : α) (items : List α) : splitOn stop items ≠ [] := by
  fun_induction splitOn stop items <;> simp

/-- The pieces and the marks between them are all of the text. -/
theorem intercalate_splitOn (stop : α) (items : List α) :
    [stop].intercalate (splitOn stop items) = items := by
  fun_induction splitOn stop items with
  | case1 => rfl
  | case2 rest ih =>
    obtain ⟨piece, pieces, hpieces⟩ := List.exists_cons_of_ne_nil (splitOn_ne_nil stop rest)
    rw [hpieces] at ih ⊢
    rw [List.intercalate_cons_cons, ih]
    rfl
  | case3 a rest ha hnone => exact absurd hnone (splitOn_ne_nil stop rest)
  | case4 a rest ha piece pieces hpieces ih =>
    rw [hpieces] at ih
    rw [← ih]
    cases pieces with
    | nil => rfl
    | cons next pieces => rw [List.intercalate_cons_cons, List.intercalate_cons_cons]; rfl

end pieces

def lines (chars : List Char) : List (List Char) := splitOn '\n' chars

/-- Each line with its end. -/
def unlines (pieces : List (List Char)) : List Char := pieces.flatMap fun line => line ++ ['\n']

theorem lines_unlines_append (h : ∀ line ∈ pieces, '\n' ∉ line) :
    lines (unlines pieces ++ behind) = pieces ++ lines behind := splitOn_flatMap h

theorem lines_unlines (h : ∀ line ∈ pieces, '\n' ∉ line) :
    lines (unlines pieces) = pieces ++ [[]] := by
  rw [← List.append_nil (unlines pieces), lines_unlines_append h]
  rfl

theorem toList_intercalate_cons (separator first : String) (rest : List String) :
    (separator.intercalate (first :: rest)).toList =
      first.toList ++ rest.flatMap fun text => separator.toList ++ text.toList := by
  induction rest generalizing first with
  | nil => simp
  | cons second rest ih =>
    rw [String.intercalate_cons_cons, String.toList_append, String.toList_append, ih,
      List.flatMap_cons, List.append_assoc, List.append_assoc]

theorem unlines_append (left right : List (List Char)) :
    unlines (left ++ right) = unlines left ++ unlines right := List.flatMap_append

/-! The first and the last mark. -/

section marks

variable {α : Type} [DecidableEq α] {stop : α} {first rest : List α}

/-- What stands before the first mark and behind it. -/
def cutFirst (stop : α) (items : List α) : List α × List α :=
  (items.takeWhile (· ≠ stop), (items.dropWhile (· ≠ stop)).tail)

/-- What stands before the last mark and behind it. -/
def cutLast (stop : α) (items : List α) : List α × List α :=
  ((cutFirst stop items.reverse).2.reverse, (cutFirst stop items.reverse).1.reverse)

theorem cutFirst_append (h : stop ∉ first) :
    cutFirst stop (first ++ stop :: rest) = (first, rest) := by
  have hall : ∀ a ∈ first, decide (a ≠ stop) = true := by
    intro a ha
    rw [decide_eq_true_eq]
    rintro rfl
    exact h ha
  rw [cutFirst, List.takeWhile_append_of_pos hall, List.dropWhile_append_of_pos hall]
  simp

theorem cutLast_append (h : stop ∉ rest) :
    cutLast stop (first ++ stop :: rest) = (first, rest) := by
  have hreverse : (first ++ stop :: rest).reverse = rest.reverse ++ stop :: first.reverse := by
    simp
  rw [cutLast, hreverse, cutFirst_append (by simpa using h)]
  simp

end marks

/-! What stands between two texts. -/

theorem between?_append {opening inside closing : List Char} :
    between? opening closing (opening ++ inside ++ closing) = some inside := by
  simp [between?]

theorem between?_eq_some_iff {opening inside closing : List Char} :
    between? opening closing chars = some inside ↔ chars = opening ++ inside ++ closing := by
  refine ⟨fun h => ?_, fun h => h ▸ between?_append⟩
  unfold between? at h
  split_ifs at h with hopening
  simp only at h
  split_ifs at h with hclosing
  obtain ⟨rest, rfl⟩ := List.isPrefixOf_iff_prefix.mp hopening
  rw [List.drop_left] at h hclosing
  obtain ⟨inside', rfl⟩ := List.isSuffixOf_iff_suffix.mp hclosing
  rw [List.length_append, Nat.add_sub_cancel, List.take_left] at h
  rw [← Option.some.inj h, List.append_assoc]

theorem between?_of_not_prefix {opening closing : List Char} (h : ¬ opening <+: chars) :
    between? opening closing chars = none := by
  simp [between?, List.isPrefixOf_iff_prefix, h]

theorem between?_of_not_mem {opening closing : List Char} (hopening : opening.head? = some mark)
    (h : mark ∉ chars) : between? opening closing chars = none := by
  apply between?_of_not_prefix
  rintro ⟨behind, rfl⟩
  exact h (List.mem_append_left _ (List.mem_of_head? hopening))

/-! Pieces that are read one by one. -/

theorem mapM_read {α β : Type} {items : List α} {write : α → β} {read : β → Option α}
    (h : ∀ item ∈ items, read (write item) = some item) :
    (items.map write).mapM read = some items := by
  induction items with
  | nil => rfl
  | cons item items ih =>
    have hitem := h item List.mem_cons_self
    have hitems := ih fun i hi => h i (List.mem_cons_of_mem _ hi)
    simp [hitem, hitems]

end AnimationKit.Text
