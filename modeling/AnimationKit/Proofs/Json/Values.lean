import AnimationKit.Proofs.Json.Brackets

/-!
A written value is taken or refused where it is read, for its numbers, its strings or its depth, and
taken where nobody wants it.
-/
namespace AnimationKit.Json

variable {α : Type} {ends : List Char → Prop} {reader : Reader α} {space text behind : List Char}
  {c : Char} {first : Bool} {items : List Item} {members : List Member}

/-- No value starts like space or like the end of an array. -/
theorem Written.head (h : Written text) :
    ∃ c, text.head? = some c ∧ isSpace c = false ∧ c ≠ ']' := by
  cases h with
  | null => exact ⟨'n', rfl, rfl, by decide⟩
  | bool value => cases value <;> exact ⟨_, rfl, rfl, by decide⟩
  | number hnumeral =>
    obtain ⟨c, hc, hstart⟩ := Reader.head?_numeral hnumeral
    refine ⟨c, hc, Reader.isSpace_of_startsNumber hstart, ?_⟩
    rintro rfl
    cases hstart
  | string => exact ⟨'"', rfl, rfl, by decide⟩
  | array => exact ⟨'[', rfl, rfl, by decide⟩
  | object => exact ⟨'\x7b', rfl, rfl, by decide⟩

/-- What a reader that looks at the first character of a value goes on with. -/
def Reader.Cases.on (cases : Cases α) (c : Char) : Reader α :=
  if c = 'n' then cases.null
  else if c = 't' then cases.bool true
  else if c = 'f' then cases.bool false
  else if startsNumber c then cases.number
  else if c = '"' then cases.text
  else if c = '[' then cases.array
  else if c = '\x7b' then cases.object
  else failNext .expectedValue

namespace Reader

theorem skipSpace_apply (hc : isSpace c = false) (text : List Char) (offset : Nat) :
    skipSpace ⟨c :: text, offset⟩ = .ok ((), ⟨c :: text, offset⟩) := by
  simp [skipSpace, Cursor.skipAll, hc]

theorem byFirst_on {cases : Cases α} (hc : isSpace c = false) :
    SameOn (c :: text) (byFirst cases) (cases.on c) := by
  intro behind offset
  rw [List.cons_append, byFirst, bind_apply (skipSpace_apply hc _ _)]
  rfl

theorem byFirst_number {cases : Cases α} (hc : text.head? = some c) (hstart : startsNumber c = true) :
    SameOn text (byFirst cases) cases.number := by
  obtain ⟨text, rfl⟩ := List.head?_eq_some_iff.mp hc
  have hletters : c ≠ 'n' ∧ c ≠ 't' ∧ c ≠ 'f' := by
    refine ⟨?_, ?_, ?_⟩ <;> rintro rfl <;> cases hstart
  have hon : cases.on c = cases.number := by
    simp only [Cases.on, hletters.1, hletters.2.1, hletters.2.2, hstart, if_false, if_true]
  rw [← hon]
  exact byFirst_on (isSpace_of_startsNumber hstart)

theorem firstOfValue_on {next : Char → Reader α} (hc : text.head? = some c)
    (hspace : isSpace c = false) : SameOn text (firstOfValue >>= next) (next c) := by
  obtain ⟨text, rfl⟩ := List.head?_eq_some_iff.mp hc
  intro behind offset
  have hfirst : firstOfValue ⟨c :: (text ++ behind), offset⟩ =
      .ok (c, ⟨c :: (text ++ behind), offset⟩) := by
    rw [firstOfValue, bind_apply (skipSpace_apply hspace _ _)]
    rfl
  exact bind_apply hfirst

theorem reads_letters (name : List Char) : Reads (letters name) name () behind := by
  induction name with
  | nil => exact Reads.pure _ _
  | cons c name ih =>
    apply peek_bind
    simp only [List.cons_append, List.head?_cons, if_true]
    exact next_bind ih

theorem takes_null : Takes ends (literal "null") "null".toList () :=
  fun _ _ => next_bind (reads_letters _)

theorem takes_bool (value : Bool) :
    Takes ends (boolLiteral value) (if value then "true" else "false").toList () := by
  intro behind _
  cases value <;> exact next_bind (reads_letters _)

theorem skipsSpace_byFirst {cases : Cases α} : SkipsSpace (byFirst cases) :=
  SkipsSpace.bind SkipsSpace.skipSpace

theorem skipsSpace_firstOfValue : SkipsSpace firstOfValue := SkipsSpace.bind SkipsSpace.skipSpace

/-! Loops, which are given a bound on how often they go round. -/

/-- The text settles what a loop does with it under any bound that is large enough. -/
def SettledWithin (size : Nat) (loop : Nat → Reader α) (text : List Char) : Prop :=
  (∃ value, ∀ bound, size < bound → ∀ behind, Reads (loop bound) text value behind) ∨
    ∀ bound behind, Refuses (loop bound) (text ++ behind)

namespace SettledWithin

variable {β : Type} {size : Nat} {loop : Nat → Reader α} {rest : List Char} {value : α}

theorem succ (h : SettledWithin size (fun bound => loop (bound + 1)) text)
    (hzero : ∀ text, Refuses (loop 0) text) : SettledWithin (size + 1) loop text := by
  rcases h with ⟨value, hread⟩ | hrefuses
  · refine .inl ⟨value, fun bound hbound behind => ?_⟩
    obtain ⟨bound, rfl⟩ := Nat.exists_eq_add_one.mpr (Nat.zero_lt_of_lt hbound)
    exact hread bound (Nat.lt_of_succ_lt_succ hbound) behind
  · refine .inr fun bound behind => ?_
    cases bound with
    | zero => exact hzero _
    | succ bound => exact hrefuses bound behind

theorem bind_reads {next : α → Nat → Reader β}
    (h : ∀ behind, Reads reader text value (rest ++ behind)) (hnext : SettledWithin size (next value) rest) :
    SettledWithin size (fun bound => reader >>= fun a => next a bound) (text ++ rest) := by
  rcases hnext with ⟨result, hread⟩ | hrefuses
  · exact .inl ⟨result, fun bound hbound behind => Reads.bind (h behind) (hread bound hbound behind)⟩
  · refine .inr fun bound behind => ?_
    rw [List.append_assoc]
    exact .of_reads (h behind) (hrefuses bound behind)

theorem bind {next : α → Nat → Reader β} (h : Settled ends reader text)
    (hrest : ∀ behind, ends (rest ++ behind)) (hnext : ∀ value, SettledWithin size (next value) rest) :
    SettledWithin size (fun bound => reader >>= fun a => next a bound) (text ++ rest) := by
  rcases h with ⟨value, htakes⟩ | hdenies
  · exact bind_reads (fun behind => htakes _ (hrest behind)) (hnext value)
  · refine .inr fun bound behind => ?_
    rw [List.append_assoc]
    exact .bind (hdenies _ (hrest behind))

theorem map {f : α → β} (h : SettledWithin size loop text) :
    SettledWithin size (fun bound => loop bound >>= fun a => pure (f a)) text := by
  rcases h with ⟨value, hread⟩ | hrefuses
  · exact .inl ⟨f value, fun bound hbound behind =>
      Reads.bind_last (hread bound hbound behind) (Reads.pure _ _)⟩
  · exact .inr fun bound behind => .bind (hrefuses bound behind)

theorem ahead (h : SettledWithin size loop text) (hsize : size ≤ text.length) :
    Settled ends (do let bound ← Reader.ahead; loop (bound + 1)) text := by
  rcases h with ⟨value, hread⟩ | hrefuses
  · refine .inl ⟨value, fun behind _ => ahead_bind (hread _ ?_ behind)⟩
    rw [List.length_append]
    omega
  · exact .inr fun behind _ => .of_reads_nil reads_ahead (hrefuses _ behind)

end SettledWithin

/-- What can be said of the items of an array. -/
structure ListedItem (reader : Reader α) (item : Item) : Prop where
  spaced : item.Spaced
  head : ∃ c, item.value.head? = some c ∧ isSpace c = false ∧ c ≠ ']'
  settled : Settled EndsNumber reader item.value

theorem settled_items (hspace : Blank space) (h : ∀ item ∈ items, ListedItem reader item)
    (first : Bool) : SettledWithin items.length (fun bound => Reader.items reader bound first)
      (partsText first space items ++ [']']) := by
  induction items generalizing space first with
  | nil =>
    refine .inl ⟨[], fun bound hbound behind => ?_⟩
    obtain ⟨bound, rfl⟩ := Nat.exists_eq_add_one.mpr hbound
    exact Reads.bind (reads_nextItem_none first hspace) (next_bind (Reads.pure _ _))
  | cons item items ih =>
    rw [List.forall_mem_cons] at h
    obtain ⟨⟨hspaced, ⟨c, hc, hblank, hclose⟩, hsettled⟩, hitems⟩ := h
    obtain ⟨value, hvalue⟩ := List.head?_eq_some_iff.mp hc
    have hopening (text : List Char) :
        Reads (nextItem first) (opening first space item.front) true (item.value ++ text) := by
      rw [hvalue]
      exact reads_nextItem first hspace hspaced.front hblank hclose
    rw [partsText, List.append_assoc, List.append_assoc]
    apply SettledWithin.succ _ fun _ => .failHere
    apply SettledWithin.bind_reads fun behind => by
      rw [List.append_assoc]
      exact hopening _
    apply SettledWithin.bind hsettled
    · intro behind
      rw [List.append_assoc]
      exact endsNumber_parts hspaced.behind (forall_head? (by decide))
    · exact fun value => (ih hspaced.behind hitems false).map

/-- A member is read as a name and a value. -/
def ReadAs (reader : Reader α) (member : Member) (named : String × α) : Prop :=
  Spells member.key named.1.toList ∧ Takes EndsNumber reader member.value named.2

variable {named : List (String × α)} {bound : Nat}

theorem reads_membersAs (hskips : SkipsSpace reader) (hspaced : ∀ member ∈ members, member.Spaced)
    (h : List.Forall₂ (ReadAs reader) members named) (hspace : Blank space) (first : Bool)
    (hbound : members.length < bound) :
    Reads (Reader.members reader bound first)
      (partsText first space (Member.parts members) ++ ['\x7d']) named behind := by
  induction h generalizing space first bound with
  | nil =>
    obtain ⟨bound, rfl⟩ := Nat.exists_eq_add_one.mpr hbound
    exact Reads.bind (reads_noKey first hspace) (next_bind (Reads.pure _ _))
  | @cons member named members rest hmember _ ih =>
    obtain ⟨bound, rfl⟩ := Nat.exists_eq_add_one.mpr (Nat.zero_lt_of_lt hbound)
    rw [List.forall_mem_cons] at hspaced
    obtain ⟨hhere, hspaced⟩ := hspaced
    obtain ⟨name, value⟩ := named
    have hquoted : Takes (fun _ => True) quotedString (inQuotes member.key) _ :=
      takes_spelled hmember.1
    have hend : EndsNumber ((partsText false member.behind (Member.parts members) ++ ['\x7d']) ++
        behind) := by
      rw [List.append_assoc]
      exact endsNumber_parts hhere.behind (forall_head? (by decide))
    have hvalue : Reads reader (member.front ++ member.value) value _ :=
      hskips.reads hhere.front (hmember.2 _ hend)
    have hrest := ih hspaced hhere.behind false (Nat.lt_of_succ_lt_succ hbound)
    simp only [partsText_member, List.append_assoc]
    apply Reads.bind (reads_anotherKey first hspace hhere.before)
    apply Reads.bind (hquoted _ trivial)
    rw [← List.append_assoc]
    apply Reads.bind (reads_colon_behind hhere.gap)
    rw [← List.append_assoc]
    apply Reads.bind hvalue
    rw [String.ofList_toList]
    exact Reads.bind_last hrest (Reads.pure _ _)

theorem refuses_membersAs (hskips : SkipsSpace reader) (hspaced : ∀ member ∈ members, member.Spaced)
    (hkeys : ∀ member ∈ members, Letters member.key)
    (hsettled : ∀ member ∈ members, Settled EndsNumber reader member.value)
    (h : ∀ named, ¬ List.Forall₂ (ReadAs reader) members named) (hspace : Blank space) (first : Bool)
    (bound : Nat) :
    Refuses (Reader.members reader bound first)
      (partsText first space (Member.parts members) ++ '\x7d' :: behind) := by
  induction members generalizing space first bound with
  | nil => exact (h [] .nil).elim
  | cons member members ih =>
    cases bound with
    | zero => exact .failHere
    | succ bound =>
      rw [List.forall_mem_cons] at hspaced hkeys hsettled
      obtain ⟨hhere, hspaced⟩ := hspaced
      have hend : EndsNumber (partsText false member.behind (Member.parts members) ++
          '\x7d' :: behind) := endsNumber_parts hhere.behind (forall_head? (by decide))
      have htext : partsText first space (Member.parts (member :: members)) ++ '\x7d' :: behind =
          opening first space member.before ++ (inQuotes member.key ++ ((member.gap ++ [':']) ++
            ((member.front ++ member.value) ++
              (partsText false member.behind (Member.parts members) ++ '\x7d' :: behind)))) := by
        simp only [partsText_member, List.append_assoc]
      rw [htext]
      apply Refuses.of_reads (reads_anotherKey first hspace hhere.before)
      by_cases hspelled : ∃ chars, Spells member.key chars
      · obtain ⟨chars, hchars⟩ := hspelled
        have hquoted : Takes (fun _ => True) quotedString (inQuotes member.key) _ :=
          takes_spelled hchars
        apply Refuses.of_reads (hquoted _ trivial)
        apply Refuses.of_reads (reads_colon_behind hhere.gap)
        rcases hsettled.1 with ⟨value, hvalue⟩ | hdenies
        · apply Refuses.of_reads (hskips.reads hhere.front (hvalue _ hend))
          refine .bind (ih hspaced hkeys.2 hsettled.2 ?_ hhere.behind false bound)
          intro named hnamed
          refine h ((String.ofList chars, value) :: named) (.cons ⟨?_, hvalue⟩ hnamed)
          rwa [String.toList_ofList]
        · exact .bind (hskips.denies hhere.front hdenies _ hend)
      · have hquoted : Denies (fun _ => True) quotedString (inQuotes member.key) :=
          denies_unspelled hkeys.1 fun chars hchars => hspelled ⟨chars, hchars⟩
        exact .bind (hquoted _ trivial)

/-! Values that are read. -/

theorem value_scalars (depth : Nat) :
    ∃ array object, Reader.value depth = byFirst (value.scalars array object) := by
  cases depth <;> exact ⟨_, _, rfl⟩

theorem skipsSpace_value (depth : Nat) : SkipsSpace (Reader.value depth) := by
  obtain ⟨array, object, hvalue⟩ := value_scalars depth
  rw [hvalue]
  exact skipsSpace_byFirst

theorem refuses_failNext {cause : Cause} : Refuses (α := α) (failNext cause) text :=
  fun _ => ⟨_, rfl⟩

theorem takes_objectValue {depth : Nat} {named : List (String × Value)}
    (hspaced : ∀ member ∈ members, member.Spaced)
    (h : List.Forall₂ (ReadAs (Reader.value depth)) members named) (hspace : Blank space) :
    Takes ends (Reader.value (depth + 1)) (objectText space members) (.object named) := by
  intro behind _
  have hlength := length_le_members true space members
  rw [objectText_eq]
  apply (byFirst_on rfl).reads
  apply next_bind
  apply ahead_bind
  refine Reads.map (reads_membersAs (skipsSpace_value depth) hspaced h hspace true ?_)
  simp only [List.length_append, List.length_cons]
  omega

theorem denies_objectValue {depth : Nat} (hspaced : ∀ member ∈ members, member.Spaced)
    (hkeys : ∀ member ∈ members, Letters member.key)
    (hsettled : ∀ member ∈ members, Settled EndsNumber (Reader.value depth) member.value)
    (h : ∀ named, ¬ List.Forall₂ (ReadAs (Reader.value depth)) members named)
    (hspace : Blank space) :
    Denies ends (Reader.value (depth + 1)) (objectText space members) := by
  intro behind _
  have hrefuses (bound : Nat) : Refuses (Reader.members (Reader.value depth) bound true)
      (partsText true space (Member.parts members) ++ '\x7d' :: behind) :=
    refuses_membersAs (skipsSpace_value depth) hspaced hkeys hsettled h hspace true bound
  rw [objectText_eq]
  apply (byFirst_on rfl).refuses
  apply Refuses.next_bind
  apply Refuses.of_reads_nil reads_ahead
  simp only [List.append_eq, List.append_assoc, List.singleton_append]
  exact .map (hrefuses _)

/-- Any value is read or refused. -/
theorem settled_value (h : Written text) (depth : Nat) :
    Settled EndsNumber (Reader.value depth) text := by
  induction h generalizing depth with
  | null =>
    obtain ⟨array, object, hvalue⟩ := value_scalars depth
    rw [hvalue]
    exact (byFirst_on rfl).settled (.of_takes (takes_null.bind_last (.pure _)))
  | bool b =>
    obtain ⟨array, object, hvalue⟩ := value_scalars depth
    rw [hvalue]
    cases b <;> exact (byFirst_on rfl).settled (.of_takes ((takes_bool _).bind_last (.pure _)))
  | number hnumeral =>
    obtain ⟨array, object, hvalue⟩ := value_scalars depth
    obtain ⟨c, hc, hstart⟩ := head?_numeral hnumeral
    rw [hvalue]
    exact (byFirst_number hc hstart).settled (settled_number hnumeral).map
  | string hletters =>
    obtain ⟨array, object, hvalue⟩ := value_scalars depth
    rw [hvalue]
    exact (byFirst_on rfl).settled (settled_quotedString hletters).map
  | @array space items hspace hspaced hitems ih =>
    cases depth with
    | zero => exact (byFirst_on rfl).settled (.inr fun _ _ => refuses_failNext)
    | succ depth =>
      rw [arrayText_eq]
      refine (byFirst_on rfl).settled (.next_bind ?_)
      have hlisted : ∀ item ∈ items, ListedItem (Reader.value depth) item := fun item hitem =>
        ⟨hspaced item hitem, (hitems item hitem).head, ih item hitem depth⟩
      have hloop : SettledWithin items.length
          (fun bound => Value.array <$> Reader.items (Reader.value depth) bound true)
          (partsText true space items ++ [']']) := (settled_items hspace hlisted true).map
      refine hloop.ahead ?_
      rw [List.length_append]
      exact length_le_partsText true space items
  | @object space members hspace hspaced hkeys hvalues ih =>
    cases depth with
    | zero => exact (byFirst_on rfl).settled (.inr fun _ _ => refuses_failNext)
    | succ depth =>
      have hsettled : ∀ member ∈ members, Settled EndsNumber (Reader.value depth) member.value :=
        fun member hmember => ih member hmember depth
      by_cases hall : ∃ named, List.Forall₂ (ReadAs (Reader.value depth)) members named
      · obtain ⟨named, hnamed⟩ := hall
        exact .of_takes (takes_objectValue hspaced hnamed hspace)
      · exact .inr (denies_objectValue hspaced hkeys hsettled
          (fun named hnamed => hall ⟨named, hnamed⟩) hspace)

/-! Values that nobody wants. -/

/-- A part of a bracket that is moved over. -/
structure SkippedPart (close : Char) (part : Reader Unit) (item : Item) : Prop where
  spaced : item.Spaced
  head : ∃ c, item.value.head? = some c ∧ isSpace c = false ∧ c ≠ close
  takes : Takes EndsNumber part item.value ()

section Parts

variable {part : Reader Unit} {loop : Nat → Reader Unit} {close : Char} {unfinished : Unfinished}
  {cause : Cause} {bound : Nat}

/-- Parts are moved over one by one, whether they are items or members. -/
theorem reads_skipParts {front : List Char} {item : Item}
    (hloop : ∀ bound, loop (bound + 1) = do
      part
      if ← skipItemEnd close unfinished cause then loop bound else pure ())
    (hclose : isSpace close = false) (hcomma : close ≠ ',') (hends : EndsNumber [close])
    (hskips : SkipsSpace part) (hfront : Blank front)
    (h : ∀ i ∈ item :: items, SkippedPart close part i) (hbound : items.length < bound) :
    Reads (loop bound) (front ++ (item.value ++ (partsText false item.behind items ++ [close]))) ()
      behind := by
  induction items generalizing item front bound with
  | nil =>
    obtain ⟨bound, rfl⟩ := Nat.exists_eq_add_one.mpr hbound
    obtain ⟨hspaced, -, htakes⟩ := h item List.mem_cons_self
    have hend : EndsNumber (partsText false item.behind [] ++ close :: behind) :=
      endsNumber_parts hspaced.behind hends
    rw [hloop, ← List.append_assoc]
    apply Reads.bind (hskips.reads hfront (htakes _ ?_))
    · exact Reads.bind_last (reads_skipItemEnd_last hspaced.behind hclose hcomma) (Reads.pure _ _)
    · simpa using hend
  | cons next items ih =>
    obtain ⟨bound, rfl⟩ := Nat.exists_eq_add_one.mpr (Nat.zero_lt_of_lt hbound)
    rw [List.forall_mem_cons] at h
    obtain ⟨⟨hspaced, -, htakes⟩, hitems⟩ := h
    have hrest := ih (hitems next List.mem_cons_self).spaced.front hitems
      (Nat.lt_of_succ_lt_succ hbound)
    have htext : partsText false item.behind (next :: items) ++ [close] = (item.behind ++ [',']) ++
        (next.front ++ (next.value ++ (partsText false next.behind items ++ [close]))) := by
      simp [partsText, opening]
    rw [hloop, ← List.append_assoc]
    apply Reads.bind (hskips.reads hfront (htakes _ ?_))
    · rw [htext]
      exact Reads.bind (reads_skipItemEnd hspaced.behind) hrest
    · rw [List.append_assoc]
      exact endsNumber_parts hspaced.behind hends

theorem takes_skipBrackets {bracket : Char}
    (hloop : ∀ bound, loop (bound + 1) = do
      part
      if ← skipItemEnd close unfinished cause then loop bound else pure ())
    (hclose : isSpace close = false) (hcomma : close ≠ ',') (hends : EndsNumber [close])
    (hskips : SkipsSpace part) (hspace : Blank space)
    (h : ∀ i ∈ items, SkippedPart close part i) (hbound : items.length ≤ bound) :
    Takes ends (do if ← skipOpening close unfinished then loop bound else pure ())
      (bracket :: (partsText true space items ++ [close])) () := by
  intro behind _
  cases items with
  | nil => exact Reads.bind_last (reads_skipOpening_empty hspace hclose) (Reads.pure _ _)
  | cons item items =>
    obtain ⟨hspaced, ⟨c, hc, hblank, hother⟩, -⟩ := h item List.mem_cons_self
    obtain ⟨value, hvalue⟩ := List.head?_eq_some_iff.mp hc
    have hparts : Reads (loop bound) (item.value ++ (partsText false item.behind items ++ [close]))
        () behind :=
      reads_skipParts hloop hclose hcomma hends hskips (List.forall_mem_nil _) h hbound
    have htext : bracket :: (partsText true space (item :: items) ++ [close]) =
        (bracket :: item.front) ++ (item.value ++ (partsText false item.behind items ++ [close])) := by
      simp [partsText, opening]
    have hopening (text : List Char) : Reads (skipOpening close unfinished) (bracket :: item.front) true
        (item.value ++ text) := by
      rw [hvalue]
      exact reads_skipOpening hspaced.front hblank hother
    rw [htext]
    apply Reads.bind
    · rw [List.append_assoc]
      exact hopening _
    · exact hparts

end Parts

theorem skipsSpace_skipMember {value : Reader Unit} : SkipsSpace (skipMember value) :=
  SkipsSpace.bind SkipsSpace.skipSpace

theorem takes_skipMember {value : Reader Unit} {member : Member} (hskips : SkipsSpace value)
    (hspaced : member.Spaced) (hkey : Letters member.key)
    (hvalue : Takes EndsNumber value member.value ()) :
    Takes EndsNumber (skipMember value) member.part.value () := by
  intro behind hend
  have hquoted : Takes (fun _ => True) skipString (inQuotes member.key) () := takes_skipString hkey
  have htext : member.part.value = inQuotes member.key ++
      ((member.gap ++ [':']) ++ (member.front ++ member.value)) := by
    simp [Member.part, Member.label]
  rw [htext]
  apply skipSpace_bind (forall_head? (by decide))
  apply peek_bind
  apply Reads.bind (hquoted _ trivial)
  apply Reads.bind (reads_colon_behind hspaced.gap)
  exact hskips.reads hspaced.front (hvalue behind hend)

theorem skipsSpace_skipWithin {bound : Nat} (h : 0 < bound) : SkipsSpace (skipWithin bound) := by
  obtain ⟨bound, rfl⟩ := Nat.exists_eq_add_one.mpr h
  exact skipsSpace_byFirst

theorem takes_skipWithin (h : Written text) {bound : Nat} (hbound : text.length < bound) :
    Takes EndsNumber (skipWithin bound) text () := by
  induction h generalizing bound with
  | null =>
    obtain ⟨bound, rfl⟩ := Nat.exists_eq_add_one.mpr (Nat.zero_lt_of_lt hbound)
    exact (byFirst_on rfl).takes takes_null
  | bool b =>
    obtain ⟨bound, rfl⟩ := Nat.exists_eq_add_one.mpr (Nat.zero_lt_of_lt hbound)
    cases b <;> exact (byFirst_on rfl).takes (takes_bool _)
  | number hnumeral =>
    obtain ⟨bound, rfl⟩ := Nat.exists_eq_add_one.mpr (Nat.zero_lt_of_lt hbound)
    obtain ⟨c, hc, hstart⟩ := head?_numeral hnumeral
    exact (byFirst_number hc hstart).takes (takes_skipNumber hnumeral)
  | string hletters =>
    obtain ⟨bound, rfl⟩ := Nat.exists_eq_add_one.mpr (Nat.zero_lt_of_lt hbound)
    exact (byFirst_on rfl).takes (takes_skipString hletters)
  | @array space items hspace hspaced hitems ih =>
    obtain ⟨bound, rfl⟩ := Nat.exists_eq_add_one.mpr (Nat.zero_lt_of_lt hbound)
    rw [arrayText_eq] at hbound ⊢
    refine (byFirst_on rfl).takes ?_
    simp only [List.length_cons, List.length_append, List.length_nil] at hbound
    have hloop (bound' : Nat) : skipItems (skipWithin bound) (bound' + 1) = (do
        skipWithin bound
        if ← skipItemEnd ']' .list .expectedListEnd then skipItems (skipWithin bound) bound'
          else pure ()) := rfl
    refine takes_skipBrackets hloop rfl (by decide) (forall_head? (by decide))
      (skipsSpace_skipWithin (by omega)) hspace ?_ ?_
    · intro item hitem
      have hlength := length_value_le true space hitem
      exact ⟨hspaced item hitem, (hitems item hitem).head, ih item hitem (by omega)⟩
    · have hlength := length_le_partsText true space items
      omega
  | @object space members hspace hspaced hkeys hvalues ih =>
    obtain ⟨bound, rfl⟩ := Nat.exists_eq_add_one.mpr (Nat.zero_lt_of_lt hbound)
    rw [objectText_eq] at hbound ⊢
    refine (byFirst_on rfl).takes ?_
    simp only [List.length_cons, List.length_append, List.length_nil] at hbound
    have hskips : SkipsSpace (skipWithin bound) := skipsSpace_skipWithin (by omega)
    have hloop (bound' : Nat) : skipMembers (skipWithin bound) (bound' + 1) = (do
        skipMember (skipWithin bound)
        if ← skipItemEnd '\x7d' .object .expectedObjectEnd then
            skipMembers (skipWithin bound) bound'
          else pure ()) := rfl
    refine takes_skipBrackets hloop rfl (by decide) (forall_head? (by decide))
      skipsSpace_skipMember hspace ?_ ?_
    · rw [Member.parts, List.forall_mem_map]
      intro member hmember
      have hpart : member.part ∈ Member.parts members := List.mem_map_of_mem hmember
      have hlength := length_value_le true space hpart
      have hvalue : member.value.length ≤ member.part.value.length := by
        simp only [Member.part, List.length_append]
        omega
      have htakes := ih member hmember (by omega : member.value.length < bound)
      exact ⟨⟨(hspaced member hmember).before, (hspaced member hmember).behind⟩,
        ⟨'"', rfl, rfl, by decide⟩,
        takes_skipMember hskips (hspaced member hmember) (hkeys member hmember) htakes⟩
    · have hlength := length_le_partsText true space (Member.parts members)
      omega

/-- Any value is moved over, with the space in front of it. -/
theorem takes_skip {front : List Char} (hfront : Blank front) (h : Written text) :
    Takes EndsNumber skip (front ++ text) () := by
  intro behind hend
  have hskips : SkipsSpace (skipWithin ((front ++ text ++ behind).length + 1)) :=
    skipsSpace_skipWithin (Nat.succ_pos _)
  apply ahead_bind
  refine hskips.reads hfront (takes_skipWithin h ?_ behind hend)
  simp only [List.length_append]
  omega

end Reader
end AnimationKit.Json
