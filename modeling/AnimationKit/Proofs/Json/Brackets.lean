import AnimationKit.Proofs.Json.Numerals
import AnimationKit.Proofs.Json.Spelling

/-!
What stands between brackets, as the readers come to it: in front of each part but the first one is
the space behind the part before and a comma.
-/
namespace AnimationKit.Json

variable {α : Type} {space front text behind : List Char} {c close : Char} {first : Bool}
  {item : Item} {items : List Item} {member : Member} {members : List Member}

/-- The parts from a place between two parts on. -/
def partsText (first : Bool) (space : List Char) : List Item → List Char
  | [] => space
  | item :: items =>
    opening first space item.front ++ (item.value ++ partsText false item.behind items)

/-- A member is listed like an item that starts with the key. -/
def Member.part (member : Member) : Item :=
  ⟨member.before, member.label ++ member.value, member.behind⟩

def Member.parts (members : List Member) : List Item := members.map part

theorem Member.part_text (member : Member) : member.part.text = member.text := by
  rw [part, Item.text, text, List.append_assoc]

theorem listing_cons (space part : List Char) (parts : List (List Char)) :
    listing space (part :: parts) = part ++ parts.flatMap (',' :: ·) := by
  show [','].intercalate (part :: parts) = _
  induction parts generalizing part with
  | nil => simp
  | cons next parts ih => simp [List.intercalate_cons_cons, ih]

theorem partsText_behind (space : List Char) (items : List Item) :
    partsText false space items = space ++ (items.map Item.text).flatMap (',' :: ·) := by
  induction items generalizing space with
  | nil => simp [partsText]
  | cons item items ih => simp [partsText, opening, ih, Item.text]

theorem listing_items (space : List Char) (items : List Item) :
    listing space (items.map Item.text) = partsText true space items := by
  cases items with
  | nil => rfl
  | cons item items => simp [listing_cons, partsText, opening, partsText_behind, Item.text]

theorem listing_members (space : List Char) (members : List Member) :
    listing space (members.map Member.text) = partsText true space (Member.parts members) := by
  have htexts : (Member.parts members).map Item.text = members.map Member.text := by
    simp [Member.parts, Member.part_text]
  rw [← htexts, listing_items]

theorem length_le_partsText_behind (space : List Char) (items : List Item) :
    items.length ≤ (partsText false space items).length := by
  induction items generalizing space with
  | nil => exact Nat.zero_le _
  | cons item items ih =>
    have hrest := ih item.behind
    simp only [partsText, opening, Bool.false_eq_true, if_false, List.length_append,
      List.length_cons]
    omega

/-- There is a comma or the closing bracket behind each part. -/
theorem length_le_partsText (first : Bool) (space : List Char) (items : List Item) :
    items.length ≤ (partsText first space items).length + 1 := by
  cases items with
  | nil => exact Nat.zero_le _
  | cons item items =>
    have hrest := length_le_partsText_behind item.behind items
    simp only [partsText, List.length_append, List.length_cons]
    omega

theorem length_value_le (first : Bool) (space : List Char) (h : item ∈ items) :
    item.value.length ≤ (partsText first space items).length := by
  induction items generalizing first space with
  | nil => cases h
  | cons next items ih =>
    simp only [partsText, List.length_append]
    rcases List.mem_cons.mp h with rfl | h
    · omega
    · have hrest := ih false next.behind h
      omega

theorem length_le_members (first : Bool) (space : List Char) (members : List Member) :
    members.length ≤ (partsText first space (Member.parts members)).length + 1 := by
  have hlength := length_le_partsText first space (Member.parts members)
  rwa [Member.parts, List.length_map] at hlength

/-- A member as the readers come to it: the key, the colon, and the value behind space. -/
theorem partsText_member (first : Bool) (space : List Char) (member : Member)
    (members : List Member) :
    partsText first space (Member.parts (member :: members)) = opening first space member.before ++
      (inQuotes member.key ++ ((member.gap ++ [':']) ++ ((member.front ++ member.value) ++
        partsText false member.behind (Member.parts members)))) := by
  simp [Member.parts, Member.part, partsText, Member.label]

theorem arrayText_eq (space : List Char) (items : List Item) :
    arrayText space items = '[' :: (partsText true space items ++ [']']) := by
  rw [arrayText, listing_items]

theorem objectText_eq (space : List Char) (members : List Member) :
    objectText space members =
      '\x7b' :: (partsText true space (Member.parts members) ++ ['\x7d']) := by
  rw [objectText, listing_members]

/-! Space. -/

theorem isDigit_of_isSpace (h : isSpace c = true) :
    c.isDigit = false ∧ c ≠ '.' ∧ c ≠ 'e' ∧ c ≠ 'E' := by
  simp only [isSpace, Bool.or_eq_true, decide_eq_true_eq] at h
  rcases h with ((rfl | rfl) | rfl) | rfl <;> decide

/-- What stands behind a value inside brackets ends a number. -/
theorem endsNumber_parts (hspace : Blank space) (hclose : EndsNumber [close]) :
    EndsNumber (partsText false space items ++ close :: behind) := by
  cases space with
  | cons c space =>
    have hc : isSpace c = true := hspace c List.mem_cons_self
    cases items <;> exact forall_head? (isDigit_of_isSpace hc)
  | nil =>
    cases items with
    | nil => exact forall_head? (hclose close rfl)
    | cons item items => exact forall_head? (by decide)

namespace Reader

theorem settled_blank_bind {ends : List Char → Prop} {rest : Unit → Reader α} (hspace : Blank space)
    (hc : isSpace c = false) (h : Settled ends (rest ()) (c :: text)) :
    Settled ends (skipSpace >>= rest) (space ++ c :: text) := by
  have htakes : Takes (fun behind => behind.head? = some c) skipSpace space () := by
    intro behind hhead
    obtain ⟨behind, rfl⟩ := List.head?_eq_some_iff.mp hhead
    exact reads_blank hspace hc
  exact .bind_takes htakes (fun _ _ => rfl) h

/-! Arrays. -/

theorem reads_nextItem (first : Bool) (hspace : Blank space) (hfront : Blank front)
    (hc : isSpace c = false) (hclose : c ≠ ']') :
    Reads (nextItem first) (opening first space front) true (c :: text) := by
  cases first with
  | true =>
    apply Reads.bind_last (reads_blank hfront hc)
    apply peek_bind
    simp only [List.nil_append, List.head?_cons, hclose, if_false, if_true]
    exact Reads.pure _ _
  | false =>
    apply blank_bind hspace (by decide)
    apply peek_bind
    simp only [List.cons_append, List.head?_cons]
    apply next_bind
    apply Reads.bind_last (reads_blank hfront hc)
    apply peek_bind
    simp only [List.nil_append, List.head?_cons, hclose, if_false]
    exact Reads.pure _ _

theorem reads_nextItem_none (first : Bool) (hspace : Blank space) :
    Reads (nextItem first) space false (']' :: behind) := by
  apply Reads.bind_last (reads_blank hspace (by decide))
  exact peek_bind (Reads.pure _ _)

/-! Brackets that nobody wants. -/

variable {unfinished : Unfinished} {cause : Cause}

theorem reads_skipItemEnd (hspace : Blank space) :
    Reads (skipItemEnd close unfinished cause) (space ++ [',']) true behind :=
  blank_bind hspace (by decide) (peek_bind (next_bind (Reads.pure _ _)))

theorem reads_skipItemEnd_last (hspace : Blank space) (hclose : isSpace close = false)
    (hcomma : close ≠ ',') :
    Reads (skipItemEnd close unfinished cause) (space ++ [close]) false behind := by
  apply blank_bind hspace hclose
  apply peek_bind
  simp only [List.cons_append, List.head?_cons, hcomma, if_false, if_true]
  exact next_bind (Reads.pure _ _)

theorem reads_skipOpening {bracket : Char} (hfront : Blank front) (hc : isSpace c = false)
    (hclose : c ≠ close) :
    Reads (skipOpening close unfinished) (bracket :: front) true (c :: text) := by
  apply next_bind
  apply Reads.bind_last (reads_blank hfront hc)
  apply peek_bind
  simp only [List.nil_append, List.head?_cons, hclose, if_false]
  exact Reads.pure _ _

theorem reads_skipOpening_empty {bracket : Char} (hspace : Blank space)
    (hclose : isSpace close = false) :
    Reads (skipOpening close unfinished) (bracket :: (space ++ [close])) false behind := by
  apply next_bind
  apply blank_bind hspace hclose
  apply peek_bind
  simp only [List.cons_append, List.head?_cons, if_true]
  exact next_bind (Reads.pure _ _)

end Reader
end AnimationKit.Json
