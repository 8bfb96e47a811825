import AnimationKit.Proofs.Json.Records

/-! What is not read. A record is refused if one of its members is, whatever stands behind it. -/
namespace AnimationKit.Json

variable {α β : Type} {reader : Reader α} {next : α → Reader β} {value : α}
  {before behind text : List Char}

/-- A reader gives no value for what is in front of it. -/
def Refuses (reader : Reader α) (text : List Char) : Prop :=
  ∀ offset, ∃ failure, reader ⟨text, offset⟩ = .error failure

namespace Refuses

theorem failHere {cause : Cause} : Refuses (α := α) (Reader.failHere cause) text :=
  fun _ => ⟨_, rfl⟩

theorem failUnplaced {cause : Cause} : Refuses (α := α) (Reader.failUnplaced cause) text :=
  fun _ => ⟨_, rfl⟩

theorem bind (h : Refuses reader text) : Refuses (reader >>= next) text := by
  intro offset
  obtain ⟨failure, hread⟩ := h offset
  refine ⟨failure, ?_⟩
  show Except.bind (reader _) _ = _
  rw [hread]
  rfl

theorem map {f : α → β} (h : Refuses reader text) : Refuses (f <$> reader) text := by
  have hbind : Refuses (reader >>= fun a => Pure.pure (f a)) text := bind h
  exact hbind

/-- What is refused behind something that is read. -/
theorem of_reads (h : Reads reader before value behind) (hnext : Refuses (next value) behind) :
    Refuses (reader >>= next) (before ++ behind) := by
  intro offset
  obtain ⟨offset', hread⟩ := h offset
  obtain ⟨failure, hfailure⟩ := hnext offset'
  exact ⟨failure, by rw [bind_apply hread, hfailure]⟩

/-- What is refused once something was looked at. -/
theorem of_reads_nil (h : Reads reader [] value text) (hnext : Refuses (next value) text) :
    Refuses (reader >>= next) text :=
  of_reads h hnext

theorem next_bind {c : Char} {rest : Unit → Reader α} (h : Refuses (rest ()) text) :
    Refuses (Reader.next >>= rest) (c :: text) := by
  have hnext : Refuses (Reader.next >>= rest) ([c] ++ text) := of_reads Reader.reads_next h
  exact hnext

theorem enclosed {close : Reader Unit} {attempt : Cursor → Cursor} (h : Refuses reader text) :
    Refuses (Reader.enclosed reader close attempt) text := by
  intro offset
  obtain ⟨failure, hread⟩ := h offset
  unfold Reader.enclosed
  rw [hread]
  cases failure with
  | located cause place => exact ⟨_, rfl⟩
  | unplaced cause place => exact ⟨_, rfl⟩

theorem run (h : Refuses reader text) : ∃ failure, reader.run text = .error failure := by
  have hwhole : Refuses reader.whole text := bind h
  obtain ⟨failure, hfailure⟩ := hwhole 0
  exact ⟨failure, by rw [Reader.run, Cursor.start, hfailure]⟩

end Refuses

namespace RecordShape

variable {shape : RecordShape α} {member : String × Value} {members front : List (String × Value)}
  {changes : List (α → α)} {record : α} {seen : List String}

/-- A member of an object is one of the fields, and its value is refused. -/
def Rejects (shape : RecordShape α) (member : String × Value) : Prop :=
  ∃ field, shape.fields.find? (fun field => field.name == member.1) = some field ∧
    ∀ behind, EndsNumber behind → Refuses field.read (member.2.render.toList ++ behind)

/-- No field is read twice. -/
theorem refuses_seen {name : String} (h : name ∈ seen)
    (hfield : ∃ field, shape.fields.find? (fun field => field.name == name) = some field) :
    Refuses (shape.readMember record seen name) text := by
  obtain ⟨field, hfield⟩ := hfield
  have hold : seen.contains name = true := by simpa using h
  unfold readMember
  simp only [hfield, hold, if_true]
  exact .failUnplaced

theorem refuses_member (h : shape.Rejects member) (hbehind : EndsNumber behind) :
    Refuses (shape.readMember record seen member.1)
      ([':'] ++ member.2.render.toList ++ behind) := by
  obtain ⟨field, hfield, hread⟩ := h
  by_cases hseen : member.1 ∈ seen
  · exact refuses_seen hseen ⟨field, hfield⟩
  · have hnew : seen.contains member.1 = false := by simpa using hseen
    unfold readMember
    simp only [hfield, hnew, Bool.false_eq_true, if_false]
    rw [List.append_assoc]
    exact .of_reads Reader.reads_colon (.bind (hread behind hbehind))

/-- What is refused behind a key is refused with the key. -/
theorem refuses_key {first : Bool} {bound : Nat} {key : String}
    (h : Refuses (shape.readMember record seen key >>= fun step =>
      shape.readMembers bound false step.1 step.2) text) :
    Refuses (shape.readMembers (bound + 1) first record seen)
      ((if first then [] else [',']) ++ ((quote key).toList ++ text)) := by
  apply Refuses.of_reads
  · rw [quote, String.toList_ofList]
    exact Reader.reads_nextKey first _
  · exact .of_reads (Reader.reads_quote key) h

/-- A refused member is come to behind members that are read. -/
theorem refuses_members (hfront : List.Forall₂ shape.Stores front changes)
    (hmember : shape.Rejects member) (first : Bool) (bound : Nat) :
    Refuses (shape.readMembers bound first record seen)
      (membersText first (front ++ member :: members) ++ '\x7d' :: behind) := by
  induction hfront generalizing first bound record seen with
  | nil =>
    cases bound with
    | zero => exact .failHere
    | succ bound =>
      have hbehind : Refuses (shape.readMember record seen member.1) ([':'] ++
          member.2.render.toList ++ (membersText false members ++ '\x7d' :: behind)) :=
        refuses_member hmember (Reader.endsNumber_members members)
      obtain ⟨key, value⟩ := member
      simp only [List.nil_append, membersText, List.append_assoc]
      simp only [List.append_assoc] at hbehind
      exact refuses_key (.bind hbehind)
  | @cons stored change front changes hstored _ ih =>
    cases bound with
    | zero => exact .failHere
    | succ bound =>
      have hrest : Refuses (shape.readMembers bound false (change record) (stored.1 :: seen))
          (membersText false (front ++ member :: members) ++ '\x7d' :: behind) := ih false bound
      have hend : EndsNumber (membersText false (front ++ member :: members) ++
          '\x7d' :: behind) := Reader.endsNumber_members _
      have hread : Refuses (shape.readMember record seen stored.1 >>= fun step =>
          shape.readMembers bound false step.1 step.2) (([':'] ++ stored.2.render.toList) ++
            (membersText false (front ++ member :: members) ++ '\x7d' :: behind)) := by
        by_cases hseen : stored.1 ∈ seen
        · obtain ⟨field, hfield, -⟩ := hstored
          exact .bind (refuses_seen hseen ⟨field, hfield⟩)
        · exact .of_reads (reads_member hstored hseen hend) hrest
      obtain ⟨key, value⟩ := stored
      simp only [List.cons_append, membersText, List.append_assoc]
      simp only [List.cons_append, List.nil_append] at hread
      exact refuses_key hread

theorem refuses_record (initial : α) (hfront : List.Forall₂ shape.Stores front changes)
    (hmember : shape.Rejects member) (behind : List Char) :
    Refuses (shape.read initial)
      ((Value.object (front ++ member :: members)).render.toList ++ behind) := by
  rw [toList_object, List.cons_append, List.append_assoc, List.singleton_append]
  apply Refuses.of_reads_nil (Reader.reads_firstOfValue (by decide) _)
  apply Refuses.next_bind
  apply Refuses.of_reads_nil Reader.reads_ahead
  exact .enclosed (refuses_members hfront hmember true _)

/-- Members in front of a refused one may be refused as well. -/
theorem refuses_record_of_settled (initial : α)
    (hfront : ∀ m ∈ front, (∃ change, shape.Stores m change) ∨ shape.Rejects m)
    (hmember : shape.Rejects member) (behind : List Char) :
    Refuses (shape.read initial)
      ((Value.object (front ++ member :: members)).render.toList ++ behind) := by
  -- The members up to the first refused one are stored.
  suffices h : ∀ stored changes, List.Forall₂ shape.Stores stored changes →
      Refuses (shape.read initial)
        ((Value.object (stored ++ (front ++ member :: members))).render.toList ++ behind) from
    h [] [] .nil
  induction front with
  | nil => exact fun stored changes hstored => refuses_record initial hstored hmember behind
  | cons m front ih =>
    intro stored changes hstored
    rcases hfront m List.mem_cons_self with ⟨change, hchange⟩ | hrejects
    · have hrest := ih (fun m hm => hfront m (List.mem_cons_of_mem _ hm)) (stored ++ [m])
        (changes ++ [change]) (List.rel_append hstored (.cons hchange .nil))
      rwa [List.append_assoc] at hrest
    · exact refuses_record initial hstored hrejects behind

end RecordShape
end AnimationKit.Json
