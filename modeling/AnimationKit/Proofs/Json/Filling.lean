import AnimationKit.Proofs.Json.Typing

/-!
What a record is filled with from the members of an object, in their order: a member with the name
of a field changes the record, unless the name was there before; any other member does nothing. An
object is read as a record exactly if it fills one.
-/
namespace AnimationKit.Json

variable {α : Type} {ends : List Char → Prop} {space front gap text behind chars : List Char}

/-- A field takes or refuses any value, behind any space. -/
structure Field.Settles (field : Field α) : Prop where
  skips : SkipsSpace field.read
  settled : ∀ {text}, Written text → Settled EndsNumber field.read text

namespace RecordShape

/-- The field with a name. -/
def field? (shape : RecordShape α) (name : String) : Option (Field α) :=
  shape.fields.find? fun field => field.name == name

/-- The members fill a record, in which the fields of some names were seen before. -/
inductive Fills (shape : RecordShape α) : List Member → α → List String → α → Prop
  | none {record : α} {seen : List String} : shape.missing? seen = none →
      Fills shape [] record seen record
  | field {member : Member} {members : List Member} {record result : α} {seen : List String}
      {chars : List Char} {field : Field α} {change : α → α} : Spells member.key chars →
      shape.field? (String.ofList chars) = some field → String.ofList chars ∉ seen →
      Takes EndsNumber field.read member.value change →
      Fills shape members (change record) (String.ofList chars :: seen) result →
      Fills shape (member :: members) record seen result
  | unknown {member : Member} {members : List Member} {record result : α} {seen : List String}
      {chars : List Char} : Spells member.key chars →
      shape.field? (String.ofList chars) = Option.none → Fills shape members record seen result →
      Fills shape (member :: members) record seen result

variable {shape : RecordShape α} {field : Field α} {member : Member} {members : List Member}
  {items : List Item} {record result : α} {seen : List String} {name : String} {change : α → α}
  {first : Bool} {bound : Nat}

/-! One member. -/

theorem takes_known (hfield : shape.field? name = some field) (hskips : SkipsSpace field.read)
    (hseen : name ∉ seen) (hspaced : member.Spaced)
    (hread : Takes EndsNumber field.read member.value change) :
    Takes EndsNumber (shape.readMember record seen name)
      ((member.gap ++ [':']) ++ (member.front ++ member.value)) (change record, name :: seen) := by
  intro behind hend
  have hnew : seen.contains name = false := by simpa using hseen
  rw [field?] at hfield
  unfold readMember
  simp only [hfield, hnew, Bool.false_eq_true, if_false]
  apply Reads.bind (Reader.reads_colon_behind hspaced.gap)
  exact Reads.bind_last (hskips.reads hspaced.front (hread behind hend)) (Reads.pure _ _)

theorem denies_known (hfield : shape.field? name = some field) (hskips : SkipsSpace field.read)
    (hseen : name ∉ seen) (hspaced : member.Spaced)
    (hread : Denies EndsNumber field.read member.value) :
    Denies EndsNumber (shape.readMember record seen name)
      ((member.gap ++ [':']) ++ (member.front ++ member.value)) := by
  intro behind hend
  have hnew : seen.contains name = false := by simpa using hseen
  rw [field?] at hfield
  unfold readMember
  simp only [hfield, hnew, Bool.false_eq_true, if_false]
  rw [List.append_assoc]
  apply Refuses.of_reads (Reader.reads_colon_behind hspaced.gap)
  exact .bind (hskips.denies hspaced.front hread behind hend)

theorem takes_unknown (hfield : shape.field? name = none) (hspaced : member.Spaced)
    (hvalue : Written member.value) :
    Takes EndsNumber (shape.readMember record seen name)
      ((member.gap ++ [':']) ++ (member.front ++ member.value)) (record, seen) := by
  intro behind hend
  rw [field?] at hfield
  unfold readMember
  simp only [hfield]
  apply Reads.bind (Reader.reads_colon_behind hspaced.gap)
  exact Reads.bind_last (Reader.takes_skip hspaced.front hvalue behind hend) (Reads.pure _ _)

/-! All members. -/

theorem reads_next {record' : α} {seen' : List String} (hspace : Blank space)
    (hspaced : member.Spaced) (hkey : Spells member.key chars)
    (hread : Takes EndsNumber (shape.readMember record seen (String.ofList chars))
      ((member.gap ++ [':']) ++ (member.front ++ member.value)) (record', seen'))
    (hrest : Reads (shape.readMembers bound false record' seen')
      (partsText false member.behind (Member.parts members)) result ('\x7d' :: behind)) :
    Reads (shape.readMembers (bound + 1) first record seen)
      (partsText first space (Member.parts (member :: members))) result ('\x7d' :: behind) := by
  have hquoted : Takes (fun _ => True) Reader.quotedString (inQuotes member.key) _ :=
    Reader.takes_spelled hkey
  have hend : EndsNumber (partsText false member.behind (Member.parts members) ++ '\x7d' :: behind) :=
    endsNumber_parts hspaced.behind (forall_head? (by decide))
  rw [partsText_member]
  apply Reads.bind (Reader.reads_anotherKey first hspace hspaced.before)
  apply Reads.bind (hquoted _ trivial)
  rw [← List.append_assoc]
  exact Reads.bind (hread _ hend) hrest

theorem reads_fills (hshape : ∀ field ∈ shape.fields, field.Settles)
    (h : shape.Fills members record seen result) (hmembers : ∀ m ∈ members, m.Grammatical)
    (hspace : Blank space) (first : Bool) (hbound : members.length < bound) :
    Reads (shape.readMembers bound first record seen) (partsText first space (Member.parts members))
      result ('\x7d' :: behind) := by
  induction h generalizing first space bound with
  | none hmissing =>
    obtain ⟨bound, rfl⟩ := Nat.exists_eq_add_one.mpr hbound
    apply Reads.bind_last (Reader.reads_noKey first hspace)
    simp only [Bool.false_eq_true, if_false, hmissing]
    exact Reads.pure _ _
  | field hkey hfield hseen hread _ ih =>
    obtain ⟨bound, rfl⟩ := Nat.exists_eq_add_one.mpr (Nat.zero_lt_of_lt hbound)
    rw [List.forall_mem_cons] at hmembers
    obtain ⟨⟨hspaced, -, -⟩, hmembers⟩ := hmembers
    have hskips := (hshape _ (List.mem_of_find?_eq_some hfield)).skips
    exact reads_next hspace hspaced hkey (takes_known hfield hskips hseen hspaced hread)
      (ih hmembers hspaced.behind false (Nat.lt_of_succ_lt_succ hbound))
  | unknown hkey hfield _ ih =>
    obtain ⟨bound, rfl⟩ := Nat.exists_eq_add_one.mpr (Nat.zero_lt_of_lt hbound)
    rw [List.forall_mem_cons] at hmembers
    obtain ⟨⟨hspaced, -, hvalue⟩, hmembers⟩ := hmembers
    exact reads_next hspace hspaced hkey (takes_unknown hfield hspaced hvalue)
      (ih hmembers hspaced.behind false (Nat.lt_of_succ_lt_succ hbound))

theorem refuses_next (hspace : Blank space) (hspaced : member.Spaced)
    (h : Refuses (do
        let key ← Reader.quotedString
        let step ← shape.readMember record seen key
        shape.readMembers bound false step.1 step.2)
      (inQuotes member.key ++ (((member.gap ++ [':']) ++ (member.front ++ member.value)) ++
        (partsText false member.behind (Member.parts members) ++ '\x7d' :: behind)))) :
    Refuses (shape.readMembers (bound + 1) first record seen)
      (partsText first space (Member.parts (member :: members)) ++ '\x7d' :: behind) := by
  have htext : partsText first space (Member.parts (member :: members)) ++ '\x7d' :: behind =
      opening first space member.before ++ (inQuotes member.key ++ (((member.gap ++ [':']) ++
        (member.front ++ member.value)) ++
          (partsText false member.behind (Member.parts members) ++ '\x7d' :: behind))) := by
    simp only [partsText_member, List.append_assoc]
  rw [htext]
  exact Refuses.of_reads (Reader.reads_anotherKey first hspace hspaced.before) h

theorem refuses_not_fills (hshape : ∀ field ∈ shape.fields, field.Settles)
    (h : ∀ result, ¬ shape.Fills members record seen result) (hmembers : ∀ m ∈ members, m.Grammatical)
    (hspace : Blank space) (first : Bool) (bound : Nat) :
    Refuses (shape.readMembers bound first record seen)
      (partsText first space (Member.parts members) ++ '\x7d' :: behind) := by
  induction members generalizing record seen first space bound with
  | nil =>
    cases bound with
    | zero => exact .failHere
    | succ bound =>
      apply Refuses.of_reads (Reader.reads_noKey first hspace)
      cases hmissing : shape.missing? seen with
      | none => exact (h record (.none hmissing)).elim
      | some field =>
        simp only [Bool.false_eq_true, if_false]
        exact .failUnplaced
  | cons member members ih =>
    cases bound with
    | zero => exact .failHere
    | succ bound =>
      rw [List.forall_mem_cons] at hmembers
      obtain ⟨⟨hspaced, hletters, hvalue⟩, hmembers⟩ := hmembers
      apply refuses_next hspace hspaced
      have hend : EndsNumber (partsText false member.behind (Member.parts members) ++
          '\x7d' :: behind) := endsNumber_parts hspaced.behind (forall_head? (by decide))
      by_cases hspelled : ∃ chars, Spells member.key chars
      · obtain ⟨chars, hkey⟩ := hspelled
        have hquoted : Takes (fun _ => True) Reader.quotedString (inQuotes member.key) _ :=
          Reader.takes_spelled hkey
        apply Refuses.of_reads (hquoted _ trivial)
        cases hfield : shape.field? (String.ofList chars) with
        | none =>
          refine .of_reads (takes_unknown hfield hspaced hvalue _ hend) ?_
          exact ih (fun result hrest => h result (.unknown hkey hfield hrest)) hmembers
            hspaced.behind false bound
        | some field =>
          obtain ⟨hskips, hsettled⟩ := hshape _ (List.mem_of_find?_eq_some hfield)
          by_cases hseen : String.ofList chars ∈ seen
          · exact .bind (refuses_seen hseen ⟨_, hfield⟩)
          rcases hsettled hvalue with ⟨change, hread⟩ | hdenies
          · refine .of_reads (takes_known hfield hskips hseen hspaced hread _ hend) ?_
            exact ih (fun result hrest => h result (.field hkey hfield hseen hread hrest)) hmembers
              hspaced.behind false bound
          · exact .bind (denies_known hfield hskips hseen hspaced hdenies _ hend)
      · have hquoted : Denies (fun _ => True) Reader.quotedString (inQuotes member.key) :=
          Reader.denies_unspelled hletters fun chars hchars => hspelled ⟨chars, hchars⟩
        exact .bind (hquoted _ trivial)

/-! An object. -/

theorem reads_object (hshape : ∀ field ∈ shape.fields, field.Settles) (hspace : Blank space)
    (hmembers : ∀ m ∈ members, m.Grammatical) (h : shape.Fills members record [] result) :
    Reads (shape.read record) (objectText space members) result behind := by
  have hlength := length_le_members true space members
  rw [objectText_eq]
  apply (Reader.firstOfValue_on rfl rfl).reads
  apply Reader.next_bind
  apply Reader.ahead_bind
  apply Reader.reads_enclosed
  refine reads_fills hshape h hmembers hspace true ?_
  simp only [List.length_append, List.length_cons]
  omega

theorem refuses_object (hshape : ∀ field ∈ shape.fields, field.Settles) (hspace : Blank space)
    (hmembers : ∀ m ∈ members, m.Grammatical) (h : ∀ result, ¬ shape.Fills members record [] result) :
    Refuses (shape.read record) (objectText space members ++ behind) := by
  rw [objectText_eq]
  apply (Reader.firstOfValue_on rfl rfl).refuses
  apply Refuses.next_bind
  apply Refuses.of_reads_nil Reader.reads_ahead
  apply Refuses.enclosed
  simp only [List.append_eq, List.append_assoc, List.singleton_append]
  exact refuses_not_fills hshape h hmembers hspace true _

/-! What is known of the members that fill a record. -/

theorem field?_of_mem (hnames : (shape.fields.map (·.name)).Nodup) (h : field ∈ shape.fields) :
    shape.field? field.name = some field := by
  rw [field?, List.find?_eq_some_iff_append]
  obtain ⟨front, behind, hfields⟩ := List.append_of_mem h
  refine ⟨by simp, front, behind, hfields, fun other hother => ?_⟩
  rw [hfields, List.map_append, List.map_cons, List.nodup_append] at hnames
  have hne : other.name ≠ field.name :=
    hnames.2.2 _ (List.mem_map_of_mem hother) _ List.mem_cons_self
  simpa using hne

theorem field?_ne_none (h : field ∈ shape.fields) : shape.field? field.name ≠ none := by
  intro hnone
  rw [field?, List.find?_eq_none] at hnone
  exact hnone field h (beq_self_eq_true _)

namespace Fills

theorem named (h : shape.Fills members record seen result) : Named members := by
  induction h with
  | none => exact List.forall_mem_nil _
  | field hkey _ _ _ _ ih => exact List.forall_mem_cons.mpr ⟨⟨_, hkey⟩, ih⟩
  | unknown hkey _ _ ih => exact List.forall_mem_cons.mpr ⟨⟨_, hkey⟩, ih⟩

/-- No field of a name that was seen is among the members. -/
theorem fresh (h : shape.Fills members record seen result) (hseen : name ∈ seen)
    (hfield : shape.field? name = some field) (value : List Char) : ¬ Has members name value := by
  induction h with
  | none =>
    rintro ⟨member, hmember, -⟩
    cases hmember
  | @field member members record result seen chars other change hkey _ hnew _ _ ih =>
    rintro ⟨found, hmember, hspells, hvalue⟩
    rcases List.mem_cons.mp hmember with rfl | hmember
    · rw [Reader.spells_unique hkey hspells, String.ofList_toList] at hnew
      exact hnew hseen
    · exact ih (List.mem_cons_of_mem _ hseen) ⟨found, hmember, hspells, hvalue⟩
  | @unknown member members record result seen chars hkey hnone _ ih =>
    rintro ⟨found, hmember, hspells, hvalue⟩
    rcases List.mem_cons.mp hmember with rfl | hmember
    · rw [Reader.spells_unique hkey hspells, String.ofList_toList, hfield] at hnone
      cases hnone
    · exact ih hseen ⟨found, hmember, hspells, hvalue⟩

/-- The value of a field is taken, and what it changes is changed behind that by other fields at
most. -/
theorem sets {value : List Char} (h : shape.Fills members record seen result)
    (hhas : Has members name value) (hfield : shape.field? name = some field) :
    ∃ change members' record' seen', Takes EndsNumber field.read value change ∧ name ∈ seen' ∧
      shape.Fills members' (change record') seen' result := by
  induction h with
  | none =>
    obtain ⟨member, hmember, -⟩ := hhas
    cases hmember
  | @field member members record result seen chars other change hkey hother hnew hread hrest ih =>
    obtain ⟨found, hmember, hspells, hvalue⟩ := hhas
    rcases List.mem_cons.mp hmember with rfl | hmember
    · rw [Reader.spells_unique hkey hspells, String.ofList_toList] at hother hrest
      rw [hfield] at hother
      obtain rfl := Option.some.inj hother
      rw [hvalue] at hread
      exact ⟨change, members, record, name :: seen, hread, List.mem_cons_self, hrest⟩
    · exact ih ⟨found, hmember, hspells, hvalue⟩
  | @unknown member members record result seen chars hkey hnone _ ih =>
    obtain ⟨found, hmember, hspells, hvalue⟩ := hhas
    rcases List.mem_cons.mp hmember with rfl | hmember
    · rw [Reader.spells_unique hkey hspells, String.ofList_toList, hfield] at hnone
      cases hnone
    · exact ih ⟨found, hmember, hspells, hvalue⟩

theorem required (h : shape.Fills members record seen result) (hfield : field ∈ shape.fields)
    (hneeded : field.required = true) : field.name ∈ seen ∨ ∃ value, Has members field.name value := by
  induction h with
  | @none record seen hmissing =>
    left
    rw [missing?, List.find?_eq_none] at hmissing
    simpa [hneeded] using hmissing field hfield
  | @field member members record result seen chars other change hkey _ _ _ _ ih =>
    rcases ih with hseen | ⟨value, found, hmember, hspells⟩
    · rcases List.mem_cons.mp hseen with hname | hseen
      · right
        refine ⟨member.value, member, List.mem_cons_self, ?_, rfl⟩
        rwa [hname, String.toList_ofList]
      · exact .inl hseen
    · exact .inr ⟨value, found, List.mem_cons_of_mem _ hmember, hspells⟩
  | unknown _ _ _ ih =>
    rcases ih with hseen | ⟨value, found, hmember, hspells⟩
    · exact .inl hseen
    · exact .inr ⟨value, found, List.mem_cons_of_mem _ hmember, hspells⟩

/-- What every change keeps still holds of the record in the end. -/
theorem keeps {property : α → Prop} (h : shape.Fills members record seen result)
    (hkeep : ∀ name value field change, Has members name value → shape.field? name = some field →
      Takes EndsNumber field.read value change → ∀ record, property record → property (change record))
    (hrecord : property record) : property result := by
  induction h with
  | none => exact hrecord
  | @field member members record result seen chars field change hkey hfield _ hread _ ih =>
    apply ih
    · rintro name value other change' ⟨found, hmember, hspells⟩
      exact hkeep name value other change' ⟨found, List.mem_cons_of_mem _ hmember, hspells⟩
    · refine hkeep _ _ field change ⟨member, List.mem_cons_self, ?_, rfl⟩ hfield hread record hrecord
      rwa [String.toList_ofList]
  | unknown _ _ _ ih =>
    apply ih _ hrecord
    rintro name value other change' ⟨found, hmember, hspells⟩
    exact hkeep name value other change' ⟨found, List.mem_cons_of_mem _ hmember, hspells⟩

end Fills

theorem has_cons {value : List Char} : Has (member :: members) name value ↔
    (Spells member.key name.toList ∧ member.value = value) ∨ Has members name value := by
  simp [Has]

/-- Members without duplicates fill a record if all values of fields are taken, and no required field
is missing. -/
theorem exists_fills (hnamed : Named members) (hdistinct : Distinct members)
    (htakes : ∀ name value field, Has members name value → shape.field? name = some field →
      ∃ change, Takes EndsNumber field.read value change)
    (hseen : ∀ name ∈ seen, ∀ value, ¬ Has members name value)
    (hrequired : ∀ field ∈ shape.fields, field.required = true →
      field.name ∈ seen ∨ ∃ value, Has members field.name value) :
    ∃ result, shape.Fills members record seen result := by
  induction members generalizing record seen with
  | nil =>
    refine ⟨record, .none (missing?_none fun field hfield hneeded => ?_)⟩
    rcases hrequired field hfield hneeded with hseen | ⟨value, found, hmember, -⟩
    · exact hseen
    · cases hmember
  | cons member members ih =>
    obtain ⟨⟨chars, hkey⟩, hnamed⟩ := List.forall_mem_cons.mp hnamed
    obtain ⟨hfirst, hdistinct⟩ := List.pairwise_cons.mp hdistinct
    have hname : Spells member.key (String.ofList chars).toList := by rwa [String.toList_ofList]
    have hrest : ∀ name value field, Has members name value → shape.field? name = some field →
        ∃ change, Takes EndsNumber field.read value change :=
      fun name value field hhas => htakes name value field (has_cons.mpr (.inr hhas))
    have hothers : ∀ field ∈ shape.fields, field.required = true →
        field.name ∈ String.ofList chars :: seen ∨ ∃ value, Has members field.name value := by
      intro field hmem hneeded
      rcases hrequired field hmem hneeded with hold | ⟨value, hhas⟩
      · exact .inl (List.mem_cons_of_mem _ hold)
      rcases has_cons.mp hhas with ⟨hspells, -⟩ | hhas
      · rw [← Reader.spells_unique hspells hkey, String.ofList_toList]
        exact .inl List.mem_cons_self
      · exact .inr ⟨value, hhas⟩
    cases hfield : shape.field? (String.ofList chars) with
    | none =>
      have hfilled : ∃ result, shape.Fills members record seen result := by
        apply ih hnamed hdistinct hrest
        · exact fun name hold value hhas => hseen name hold value (has_cons.mpr (.inr hhas))
        · intro field hmem hneeded
          rcases hothers field hmem hneeded with hold | hhas
          · rcases List.mem_cons.mp hold with hname | hold
            · rw [← hname] at hfield
              exact (field?_ne_none hmem hfield).elim
            · exact .inl hold
          · exact .inr hhas
      obtain ⟨result, hresult⟩ := hfilled
      exact ⟨result, .unknown hkey hfield hresult⟩
    | some field =>
      obtain ⟨change, hread⟩ := htakes _ _ _ (has_cons.mpr (.inl ⟨hname, rfl⟩)) hfield
      have hnew : String.ofList chars ∉ seen := fun hold =>
        hseen _ hold _ (has_cons.mpr (.inl ⟨hname, rfl⟩))
      have hfilled : ∃ result,
          shape.Fills members (change record) (String.ofList chars :: seen) result := by
        refine ih hnamed hdistinct hrest ?_ hothers
        intro name hold value hhas
        rcases List.mem_cons.mp hold with rfl | hold
        · obtain ⟨found, hmember, hspells, -⟩ := hhas
          exact hfirst found hmember chars hkey (by rwa [String.toList_ofList] at hspells)
        · exact hseen name hold value (has_cons.mpr (.inr hhas))
      obtain ⟨result, hresult⟩ := hfilled
      exact ⟨result, .field hkey hfield hnew hread hresult⟩

/-! An array. -/

section Enclosed

variable {inside : Reader α} {close : Reader Unit} {attempt : Cursor → Cursor} {cursor : Cursor}

theorem enclosing_apply : (do let value ← inside; close; pure value : Reader α) cursor =
    match inside cursor with
    | .ok (value, after) =>
      match close after with
      | .ok (_, closed) => .ok (value, closed)
      | .error failure => .error failure
    | .error failure => .error failure := by
  show Except.bind (inside cursor) _ = _
  cases inside cursor with
  | error failure => rfl
  | ok read =>
    obtain ⟨value, after⟩ := read
    show Except.bind (close after) _ = match close after with | .ok (_, closed) => _ | .error _ => _
    cases close after <;> rfl

theorem enclosed_ok {read : α × Cursor}
    (h : (do let value ← inside; close; pure value : Reader α) cursor = .ok read) :
    Reader.enclosed inside close attempt cursor = .ok read := by
  rw [enclosing_apply] at h
  unfold Reader.enclosed
  cases hinside : inside cursor with
  | error failure =>
    rw [hinside] at h
    cases h
  | ok read =>
    rw [hinside] at h
    exact h

theorem enclosed_error {failure : Failure}
    (h : (do let value ← inside; close; pure value : Reader α) cursor = .error failure) :
    ∃ failure', Reader.enclosed inside close attempt cursor = .error failure' := by
  rw [enclosing_apply] at h
  unfold Reader.enclosed
  cases hinside : inside cursor with
  | error failure => cases failure <;> exact ⟨_, rfl⟩
  | ok read =>
    rw [hinside] at h
    exact ⟨_, h⟩

/-- Reading inside brackets is settled where reading and then closing them is. -/
theorem settled_enclosed (h : Settled ends (do let value ← inside; close; pure value) text) :
    Settled ends (Reader.enclosed inside close attempt) text := by
  rcases h with ⟨value, htakes⟩ | hdenies
  · refine .inl ⟨value, fun behind hend offset => ?_⟩
    obtain ⟨offset', hread⟩ := htakes behind hend offset
    exact ⟨offset', enclosed_ok hread⟩
  · refine .inr fun behind hend offset => ?_
    obtain ⟨failure, hfailure⟩ := hdenies behind hend offset
    exact enclosed_error hfailure

end Enclosed

/-- An array ends only at its closing bracket; behind a comma there is nothing that would be read. -/
theorem refuses_closeArray {c : Char} (hspace : Blank space) (hc : isSpace c = false)
    (hclose : c ≠ ']') : Refuses Reader.closeArray (space ++ c :: text) := by
  apply Refuses.of_reads (Reader.reads_blank hspace hc)
  apply Refuses.of_reads_nil Reader.reads_peek
  simp only [List.head?_cons, hclose, if_false]
  by_cases hcomma : c = ','
  · rw [if_pos hcomma]
    have hskip : Reads Reader.skipSpace (text.takeWhile isSpace) () (text.dropWhile isSpace) := by
      intro offset
      rw [List.takeWhile_append_dropWhile]
      exact ⟨_, rfl⟩
    apply Refuses.next_bind
    rw [← List.takeWhile_append_dropWhile (p := isSpace) (l := text)]
    apply Refuses.of_reads hskip
    apply Refuses.of_reads_nil Reader.reads_peek
    split <;> exact Reader.refuses_failNext
  · rw [if_neg hcomma]
    exact Reader.refuses_failNext

theorem settled_closeArray (hspace : Blank space)
    (hitems : ∀ item ∈ items, item.Spaced ∧ Written item.value) (first : Bool) (value : α) :
    Settled ends (do Reader.closeArray; pure value) (partsText first space items ++ [']']) := by
  cases items with
  | nil =>
    have hclose : Settled ends Reader.closeArray (space ++ [']']) :=
      Reader.settled_blank_bind hspace (by decide)
        (.peek_bind rfl (.of_takes fun _ _ => Reader.reads_next))
    exact hclose.bind_last fun _ => .pure value
  | cons item items =>
    obtain ⟨hspaced, hvalue⟩ := hitems item List.mem_cons_self
    obtain ⟨c, hc, hblank, hne⟩ := hvalue.head
    obtain ⟨rest, hrest⟩ := List.head?_eq_some_iff.mp hc
    refine .inr fun behind _ => .bind ?_
    cases first with
    | true =>
      simp only [partsText, opening, if_true, hrest, List.append_assoc, List.cons_append]
      exact refuses_closeArray hspaced.front hblank hne
    | false =>
      simp only [partsText, opening, Bool.false_eq_true, if_false, List.append_assoc,
        List.cons_append]
      exact refuses_closeArray hspace (by decide) (by decide)

/-- Fields are read from the items of an array, up to the closing bracket. -/
theorem settled_readItems {fields : List (Field α)} (hfields : ∀ field ∈ fields, field.Settles)
    (wanted : Wanted) (size index : Nat) (record : α) (hspace : Blank space)
    (hitems : ∀ item ∈ items, item.Spaced ∧ Written item.value) :
    Settled ends (do
        let value ← readItems wanted size fields index record
        Reader.closeArray
        pure value)
      (partsText (index == 0) space items ++ [']']) := by
  induction fields generalizing index record space items with
  | nil => exact settled_closeArray hspace hitems _ record
  | cons field fields ih =>
    rw [List.forall_mem_cons] at hfields
    obtain ⟨⟨-, hsettled⟩, hfields⟩ := hfields
    unfold readItems
    simp only [bind_assoc]
    cases items with
    | nil =>
      have hnone : Takes (fun behind => behind.head? = some ']') (Reader.nextItem (index == 0))
          space false := by
        intro behind hhead
        obtain ⟨behind, rfl⟩ := List.head?_eq_some_iff.mp hhead
        exact Reader.reads_nextItem_none _ hspace
      apply Settled.bind_takes hnone fun _ _ => rfl
      simp only [Bool.false_eq_true, if_false]
      split
      · exact .inr fun _ _ => .bind .failUnplaced
      · have hrest := ih hfields index record (List.forall_mem_nil _) hitems
        exact hrest
    | cons item items =>
      rw [List.forall_mem_cons] at hitems
      obtain ⟨⟨hspaced, hvalue⟩, hitems⟩ := hitems
      obtain ⟨c, hc, hblank, hne⟩ := hvalue.head
      have hopening : Takes (fun behind => behind.head? = some c) (Reader.nextItem (index == 0))
          (opening (index == 0) space item.front) true := by
        intro behind hhead
        obtain ⟨behind, rfl⟩ := List.head?_eq_some_iff.mp hhead
        exact Reader.reads_nextItem _ hspace hspaced.front hblank hne
      rw [partsText, List.append_assoc, List.append_assoc]
      apply Settled.bind_takes hopening
      · intro behind _
        rw [List.append_assoc, List.head?_append, hc]
        rfl
      simp only [if_true, bind_assoc]
      apply Settled.bind (hsettled hvalue)
      · intro behind _
        rw [List.append_assoc]
        exact endsNumber_parts hspaced.behind (forall_head? (by decide))
      · exact fun change => ih hfields (index + 1) (change record) hspaced.behind hitems

/-- A record is read or refused, whatever kind of value is in front. -/
theorem settled_record (hshape : ∀ field ∈ shape.fields, field.Settles) (initial : α)
    (h : Written text) : Settled EndsNumber (shape.read initial) text := by
  by_cases hbrace : text.head? = some '\x7b'
  · obtain ⟨space, members, hspace, hmembers, rfl⟩ := h.members_of_head hbrace
    by_cases hfills : ∃ result, shape.Fills members initial [] result
    · obtain ⟨result, hresult⟩ := hfills
      exact .inl ⟨result, fun _ _ => reads_object hshape hspace hmembers hresult⟩
    · exact .inr fun _ _ => refuses_object hshape hspace hmembers
        fun result hresult => hfills ⟨result, hresult⟩
  apply Reader.settled_first h
  intro c hc
  have hother : c ≠ '\x7b' := by
    rintro rfl
    exact hbrace hc
  rw [if_neg hother]
  by_cases hbracket : c = '['
  · subst hbracket
    obtain ⟨space, items, hspace, hitems, rfl⟩ := h.items_of_head hc
    rw [if_pos rfl, arrayText_eq]
    exact .next_bind (settled_enclosed (settled_readItems hshape _ _ 0 initial hspace hitems))
  · rw [if_neg hbracket]
    exact .inr (Reader.denies_wrongType _ h)

theorem skipsSpace_record (shape : RecordShape α) (initial : α) : SkipsSpace (shape.read initial) :=
  SkipsSpace.bind Reader.skipsSpace_firstOfValue

end RecordShape
end AnimationKit.Json
