import AnimationKit.Json.Typed
import AnimationKit.Proofs.Json.Grammar
import AnimationKit.Proofs.Json.Numbers

/-! Objects, and records with the fields that an object names, are read back from their text. -/
namespace AnimationKit.Json

variable {α β : Type} {reader : Reader α} {next : α → Reader β} {value : α}
  {before front space behind : List Char} {c : Char}

/-! Space in front. -/

/-- A reader moves over the space in front before it does anything else. -/
def SkipsSpace (reader : Reader α) : Prop :=
  ∀ front text offset, Blank front →
    reader ⟨front ++ text, offset⟩ = reader ⟨text, offset + front.length⟩

namespace SkipsSpace

theorem skipSpace : SkipsSpace Reader.skipSpace := by
  intro front text offset h
  simp only [Reader.skipSpace, Cursor.skipAll, List.takeWhile_append_of_pos h,
    List.dropWhile_append_of_pos h, List.length_append, Nat.add_assoc]

theorem bind (h : SkipsSpace reader) : SkipsSpace (reader >>= next) := by
  intro front text offset hfront
  show Except.bind (reader _) _ = Except.bind (reader _) _
  rw [h front text offset hfront]

theorem reads (h : SkipsSpace reader) (hfront : Blank front)
    (hreads : Reads reader before value behind) : Reads reader (front ++ before) value behind := by
  intro offset
  obtain ⟨offset', hread⟩ := hreads (offset + front.length)
  exact ⟨offset', by rw [List.append_assoc, h front _ offset hfront, hread]⟩

end SkipsSpace

/-! Text. -/

/-- The members of an object; in front of all but the first one is a comma. -/
def membersText (first : Bool) : List (String × Value) → List Char
  | [] => []
  | (key, value) :: members =>
    (if first then [] else [',']) ++ ((quote key).toList ++ ([':'] ++ (value.render.toList ++
      membersText false members)))

/-- What stands in front of a part. -/
def opening (first : Bool) (space front : List Char) : List Char :=
  if first then front else space ++ ',' :: front

theorem toList_intercalate_members (member : String × Value) (members : List (String × Value)) :
    (",".intercalate (renderMembers (member :: members))).toList =
      membersText true (member :: members) := by
  induction members generalizing member with
  | nil =>
    have hcolon : ":".toList = [':'] := rfl
    simp [renderMembers, membersText, hcolon]
  | cons next members ih =>
    have hcolon : ":".toList = [':'] := rfl
    have hcomma : ",".toList = [','] := rfl
    have hnext := ih next
    simp only [renderMembers, String.intercalate_cons_cons] at hnext ⊢
    simp only [String.toList_append, hnext, membersText, hcolon, hcomma, if_true, List.append_assoc]
    simp

theorem toList_object (members : List (String × Value)) :
    (Value.object members).render.toList = '\x7b' :: (membersText true members ++ ['\x7d']) := by
  have hopening : "\x7b".toList = ['\x7b'] := rfl
  have hclosing : "\x7d".toList = ['\x7d'] := rfl
  rw [Value.render, String.toList_append, String.toList_append, hopening, hclosing]
  cases members with
  | nil => simp [renderMembers, membersText]
  | cons member members => rw [toList_intercalate_members, List.singleton_append, List.cons_append]

theorem head?_quote (s : String) : (quote s).toList.head? = some '"' := by
  rw [quote, String.toList_ofList]
  rfl

namespace Reader

/-! The first character of a value tells what is read. -/

theorem reads_firstOfValue (hspace : isSpace c = false) (text : List Char) :
    Reads firstOfValue [] c (c :: text) :=
  skipSpace_bind (forall_head? hspace) (peek_bind (Reads.pure _ _))

theorem firstOfValue_bind {rest : Char → Reader α} (hc : before.head? = some c)
    (hspace : isSpace c = false) (h : Reads (rest c) before value behind) :
    Reads (firstOfValue >>= rest) before value behind := by
  obtain ⟨text, rfl⟩ := List.head?_eq_some_iff.mp hc
  exact Reads.bind (reads_firstOfValue hspace _) h

/-- The text of a finite double starts with a digit or a minus sign. -/
theorem head?_chars (d : Decimal) (layout : Decimal.Layout) :
    ∃ c, (d.chars layout).head? = some c ∧ startsNumber c = true := by
  obtain ⟨first, rest, hdigits⟩ := List.exists_cons_of_ne_nil d.digits_ne_nil
  have hfirst : startsNumber first = true := by
    have hdigit : first.isDigit = true :=
      Decimal.isDigit_of_mem_digits (by rw [hdigits]; exact List.mem_cons_self)
    simp [startsNumber, hdigit]
  unfold Decimal.chars
  dsimp only
  split_ifs
  · exact ⟨'-', rfl, rfl⟩
  · exact ⟨'-', rfl, rfl⟩
  · unfold Decimal.positionalChars
    split_ifs with _ hinside
    · exact ⟨first, by rw [hdigits]; rfl, hfirst⟩
    · obtain ⟨place, hplace⟩ : ∃ place, d.pointPlace.toNat = place + 1 :=
        ⟨d.pointPlace.toNat - 1, by omega⟩
      exact ⟨first, by rw [hdigits, hplace]; rfl, hfirst⟩
    · exact ⟨'0', rfl, rfl⟩
  · exact ⟨first, by rw [Decimal.scientificChars, hdigits]; rfl, hfirst⟩

theorem isSpace_of_startsNumber (h : startsNumber c = true) : isSpace c = false := by
  by_contra hspace
  simp only [isSpace, Bool.not_eq_false, Bool.or_eq_true, decide_eq_true_eq] at hspace
  rcases hspace with ((rfl | rfl) | rfl) | rfl <;> exact absurd h (by decide)

variable {x : Binary64}

theorem render_double (h : x.isFinite = true) : (Value.double x).render = doubleText x := by
  rw [Value.double, if_pos h, Value.render, Number.render]

theorem render_double_of_not_finite (h : x.isFinite = false) : (Value.double x).render = "null" := by
  rw [Value.double, h, if_neg Bool.false_ne_true]
  rfl

theorem head?_doubleText (h : x.isFinite = true) :
    ∃ c, (doubleText x).toList.head? = some c ∧ startsNumber c = true := by
  cases x with
  | nan => simp [Binary64.isFinite] at h
  | signed negative rank hrank =>
    rw [doubleText, if_neg (Binary64.isFinite_signed.mp h), Decimal.text, String.toList_ofList]
    exact head?_chars _ _

/-- A finite double is read back as a value of its own. -/
theorem reads_double (h : x.isFinite = true) (hbehind : EndsNumber behind) :
    Reads double (Value.double x).render.toList x behind := by
  obtain ⟨c, hc, hstart⟩ := head?_doubleText h
  rw [render_double h]
  apply firstOfValue_bind hc (isSpace_of_startsNumber hstart)
  rw [if_pos hstart]
  exact Reads.bind_last (reads_doubleText h hbehind) (Reads.pure _ _)

theorem reads_byFirst_number {cases : Cases α} (hc : before.head? = some c)
    (hstart : startsNumber c = true) (h : Reads cases.number before value behind) :
    Reads (byFirst cases) before value behind := by
  obtain ⟨text, rfl⟩ := List.head?_eq_some_iff.mp hc
  apply skipSpace_bind (forall_head? (isSpace_of_startsNumber hstart))
  apply peek_bind
  have hletters : c ≠ 'n' ∧ c ≠ 't' ∧ c ≠ 'f' := by
    refine ⟨?_, ?_, ?_⟩ <;> rintro rfl <;> exact absurd hstart (by decide)
  obtain ⟨hnull, htrue, hfalse⟩ := hletters
  simp only [List.cons_append, List.head?_cons, hnull, htrue, hfalse, hstart, if_false, if_true]
  exact h

theorem reads_text (s : String) : Reads text (quote s).toList s behind := by
  apply firstOfValue_bind (head?_quote s) (by decide)
  exact reads_quote s

/-- What does not start like `null` is read as a value that is there. -/
theorem reads_optional (h : Reads reader before value behind) (hc : before.head? = some c)
    (hspace : isSpace c = false) (hnull : c ≠ 'n') :
    Reads (optional reader) before (some value) behind := by
  apply firstOfValue_bind hc hspace
  rw [if_neg hnull]
  exact Reads.map h

/-! Between the parts of an object. -/

theorem reads_blank (hspace : Blank space) (hc : isSpace c = false) :
    Reads skipSpace space () (c :: behind) := by
  have hread : Reads skipSpace (space ++ []) () (c :: behind) :=
    SkipsSpace.skipSpace.reads hspace (reads_skipSpace (forall_head? hc))
  rwa [List.append_nil] at hread

theorem blank_bind {rest : Unit → Reader α} {value : α} (hspace : Blank space)
    (hc : isSpace c = false) (h : Reads (rest ()) (c :: before) value behind) :
    Reads (skipSpace >>= rest) (space ++ c :: before) value behind :=
  Reads.bind (reads_blank hspace hc) h

theorem reads_colon_behind (hspace : Blank space) : Reads colon (space ++ [':']) () behind :=
  blank_bind hspace (by decide) (peek_bind reads_next)

theorem reads_colon : Reads colon [':'] () behind := reads_colon_behind (List.forall_mem_nil _)

/-- Another key is read behind the comma that is in front of all but the first one. -/
theorem reads_anotherKey (first : Bool) {text : List Char} (hspace : Blank space)
    (hfront : Blank front) : Reads (nextKey first) (opening first space front) true ('"' :: text) := by
  cases first with
  | true => exact Reads.bind_last (reads_blank hfront (by decide)) (peek_bind (Reads.pure _ _))
  | false =>
    apply blank_bind hspace (by decide)
    apply peek_bind
    simp only [List.cons_append, List.head?_cons]
    apply next_bind
    exact Reads.bind_last (reads_blank hfront (by decide)) (peek_bind (Reads.pure _ _))

theorem reads_noKey (first : Bool) (hspace : Blank space) :
    Reads (nextKey first) space false ('\x7d' :: behind) :=
  Reads.bind_last (reads_blank hspace (by decide)) (peek_bind (Reads.pure _ _))

theorem reads_nextKey (first : Bool) (text : List Char) :
    Reads (nextKey first) (if first then [] else [',']) true ('"' :: text) :=
  reads_anotherKey first (List.forall_mem_nil _) (List.forall_mem_nil _)

theorem reads_nextKey_none (first : Bool) (text : List Char) :
    Reads (nextKey first) [] false ('\x7d' :: text) :=
  reads_noKey first (List.forall_mem_nil _)

theorem endsNumber_members (members : List (String × Value)) :
    EndsNumber (membersText false members ++ '\x7d' :: behind) := by
  cases members with
  | nil => exact forall_head? (by decide)
  | cons member members => exact forall_head? (by decide)

/-- A member is read as another one with the same key. -/
def ReadsMember (valueReader : Reader Value) (member read : String × Value) : Prop :=
  member.1 = read.1 ∧
    ∀ behind, EndsNumber behind → Reads valueReader member.2.render.toList read.2 behind

/-- The members of an object are read if the value of each of them is. -/
theorem reads_members {valueReader : Reader Value} {members read : List (String × Value)}
    (h : List.Forall₂ (ReadsMember valueReader) members read) (first : Bool) {bound : Nat}
    (hbound : members.length < bound) :
    Reads (Reader.members valueReader bound first) (membersText first members ++ ['\x7d']) read
      behind := by
  induction h generalizing first bound with
  | nil =>
    obtain ⟨bound, rfl⟩ := Nat.exists_eq_add_one.mpr hbound
    exact Reads.bind (reads_nextKey_none first behind) (next_bind (Reads.pure _ _))
  | @cons member read members rest hmember _ ih =>
    obtain ⟨bound, rfl⟩ := Nat.exists_eq_add_one.mpr (Nat.zero_lt_of_lt hbound)
    have hrest := ih false (Nat.lt_of_succ_lt_succ hbound)
    obtain ⟨key, value⟩ := member
    obtain ⟨key', value'⟩ := read
    obtain ⟨rfl, hvalue⟩ := hmember
    simp only [membersText, List.append_assoc]
    apply Reads.bind
    · rw [quote, String.toList_ofList]
      exact reads_nextKey first _
    · apply Reads.bind (reads_quote _)
      apply Reads.bind reads_colon
      apply Reads.bind
      · rw [List.append_assoc]
        exact hvalue _ (endsNumber_members members)
      · exact Reads.bind_last hrest (Reads.pure _ _)

theorem length_le_membersText (first : Bool) (members : List (String × Value)) :
    members.length ≤ (membersText first members).length := by
  induction members generalizing first with
  | nil => exact Nat.le_refl _
  | cons member members ih =>
    have hrest := ih false
    simp only [membersText, List.length_append, List.length_cons]
    omega

theorem reads_object {depth : Nat} {members read : List (String × Value)}
    (h : List.Forall₂ (ReadsMember (Reader.value depth)) members read) :
    Reads (Reader.value (depth + 1)) (Value.object members).render.toList (.object read)
      behind := by
  have hlength := length_le_membersText true members
  rw [toList_object]
  apply skipSpace_bind (forall_head? (by decide))
  apply peek_bind
  apply next_bind
  apply ahead_bind
  refine Reads.map (reads_members h true ?_)
  simp only [List.length_append]
  omega

/-- Closing an object that was read ends it. -/
theorem reads_enclosed (h : Reads reader before value ('\x7d' :: behind)) :
    Reads (enclosed reader closeObject Cursor.closeObject) (before ++ ['\x7d']) value behind := by
  have hclose : Reads closeObject ['\x7d'] () behind :=
    skipSpace_bind (forall_head? (by decide)) (peek_bind reads_next)
  intro offset
  obtain ⟨inner, hread⟩ := h offset
  obtain ⟨outer, hclosed⟩ := hclose inner
  refine ⟨outer, ?_⟩
  rw [List.append_assoc]
  unfold enclosed
  rw [List.singleton_append, hread]
  dsimp only
  rw [List.singleton_append] at hclosed
  rw [hclosed]

end Reader

namespace RecordShape

/-! Records. -/

variable {shape : RecordShape α} {members : List (String × Value)} {changes : List (α → α)}
  {record : α} {seen : List String}

/-- A member of an object is one of the fields, and reading it makes a change to the record. -/
def Stores (shape : RecordShape α) (member : String × Value) (change : α → α) : Prop :=
  ∃ field, shape.fields.find? (fun field => field.name == member.1) = some field ∧
    ∀ behind, EndsNumber behind → Reads field.read member.2.render.toList change behind

/-- The record after some changes, one behind the other. -/
def changed (record : α) (changes : List (α → α)) : α :=
  changes.foldl (fun record change => change record) record

theorem reads_member {member : String × Value} {change : α → α} (h : shape.Stores member change)
    (hseen : member.1 ∉ seen) (hbehind : EndsNumber behind) :
    Reads (shape.readMember record seen member.1) ([':'] ++ member.2.render.toList)
      (change record, member.1 :: seen) behind := by
  obtain ⟨field, hfield, hread⟩ := h
  have hnew : seen.contains member.1 = false := by simpa using hseen
  unfold readMember
  simp only [hfield, hnew, Bool.false_eq_true, if_false]
  apply Reads.bind Reader.reads_colon
  exact Reads.bind_last (hread behind hbehind) (Reads.pure _ _)

/-- No required field is missing once each of them has been seen. -/
theorem missing?_none (h : ∀ field ∈ shape.fields, field.required = true → field.name ∈ seen) :
    shape.missing? seen = none := by
  rw [missing?, List.find?_eq_none]
  intro field hfield hmissing
  simp only [Bool.and_eq_true, Bool.not_eq_true', List.contains_eq_mem, decide_eq_false_iff_not]
    at hmissing
  exact hmissing.2 (h field hfield hmissing.1)

theorem reads_recordMembers (h : List.Forall₂ shape.Stores members changes)
    (hnodup : (members.map (·.1)).Nodup) (hseen : ∀ key ∈ members.map (·.1), key ∉ seen)
    (hrequired : ∀ field ∈ shape.fields, field.required = true →
      field.name ∈ seen ∨ field.name ∈ members.map (·.1))
    (first : Bool) {bound : Nat} (hbound : members.length < bound) :
    Reads (shape.readMembers bound first record seen) (membersText first members)
      (changed record changes) ('\x7d' :: behind) := by
  induction h generalizing first bound record seen with
  | nil =>
    obtain ⟨bound, rfl⟩ := Nat.exists_eq_add_one.mpr hbound
    have hmissing : shape.missing? seen = none :=
      missing?_none fun field hfield hneeded => by simpa using hrequired field hfield hneeded
    apply Reads.bind_last (Reader.reads_nextKey_none first behind)
    simp only [Bool.false_eq_true, if_false, hmissing]
    exact Reads.pure _ _
  | @cons member change members changes hmember _ ih =>
    obtain ⟨bound, rfl⟩ := Nat.exists_eq_add_one.mpr (Nat.zero_lt_of_lt hbound)
    rw [List.map_cons, List.nodup_cons] at hnodup
    have hnew : member.1 ∉ seen := hseen _ (by simp)
    have hrest : Reads (shape.readMembers bound false (change record) (member.1 :: seen))
        (membersText false members) (changed (change record) changes) ('\x7d' :: behind) := by
      apply ih hnodup.2
      · intro key hkey hold
        rcases List.mem_cons.mp hold with rfl | hold
        · exact hnodup.1 hkey
        · exact hseen key (List.mem_cons_of_mem _ hkey) hold
      · intro field hfield hneeded
        have hfound := hrequired field hfield hneeded
        simp only [List.map_cons, List.mem_cons] at hfound ⊢
        tauto
      · exact Nat.lt_of_succ_lt_succ hbound
    have hend : EndsNumber (membersText false members ++ '\x7d' :: behind) :=
      Reader.endsNumber_members members
    have hmemberRead : Reads (shape.readMember record seen member.1) _ _ _ :=
      reads_member hmember hnew hend
    obtain ⟨key, value⟩ := member
    have htext : membersText first ((key, value) :: members) = (if first then [] else [',']) ++
        ((quote key).toList ++ (([':'] ++ value.render.toList) ++ membersText false members)) := by
      simp only [membersText, List.append_assoc]
    rw [htext]
    apply Reads.bind
    · rw [quote, String.toList_ofList]
      exact Reader.reads_nextKey first _
    · apply Reads.bind (Reader.reads_quote key)
      exact Reads.bind hmemberRead hrest

/-- A record is read back from an object with some of its fields, all required ones among them. -/
theorem reads_record (initial : α) (h : List.Forall₂ shape.Stores members changes)
    (hnodup : (members.map (·.1)).Nodup)
    (hrequired : ∀ field ∈ shape.fields, field.required = true → field.name ∈ members.map (·.1)) :
    Reads (shape.read initial) (Value.object members).render.toList (changed initial changes)
      behind := by
  have hlength := Reader.length_le_membersText true members
  rw [toList_object]
  apply Reader.firstOfValue_bind rfl (by decide)
  apply Reader.next_bind
  apply Reader.ahead_bind
  apply Reader.reads_enclosed
  refine reads_recordMembers h hnodup (by simp) (fun field hfield hneeded => Or.inr ?_) true ?_
  · exact hrequired field hfield hneeded
  · simp only [List.length_append]
    omega

end RecordShape
end AnimationKit.Json
