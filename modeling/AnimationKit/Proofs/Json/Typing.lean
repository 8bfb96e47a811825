import AnimationKit.Json.Typed
import AnimationKit.Proofs.Json.Values

/-!
A value of a wanted type is taken or refused, whatever kind of value stands there instead, and so is
a record if the values of its fields are.
-/
namespace AnimationKit.Json

variable {α β : Type} {ends : List Char → Prop} {reader : Reader α} {next : Char → Reader α}
  {space front text behind letters : List Char} {c : Char} {items : List Item} {members : List Member}

namespace Written

/-! The first character tells the kind of a value. -/

theorem numeral_of_head (h : Written text) (hc : text.head? = some c)
    (hstart : Reader.startsNumber c = true) : Numeral text := by
  cases h with
  | number hnumeral => exact hnumeral
  | bool value => cases value <;> (obtain rfl := Option.some.inj hc; cases hstart)
  | null | string | array | object => obtain rfl := Option.some.inj hc; cases hstart

theorem letters_of_head (h : Written text) (hc : text.head? = some '"') :
    ∃ letters, Letters letters ∧ text = inQuotes letters := by
  cases h with
  | @string letters hletters => exact ⟨letters, hletters, rfl⟩
  | number hnumeral => cases Reader.startsNumber_of_head hnumeral hc
  | bool value => cases value <;> cases hc
  | null | array | object => cases hc

theorem null_of_head (h : Written text) (hc : text.head? = some 'n') : text = "null".toList := by
  cases h with
  | null => rfl
  | number hnumeral => cases Reader.startsNumber_of_head hnumeral hc
  | bool value => cases value <;> cases hc
  | string | array | object => cases hc

theorem members_of_head (h : Written text) (hc : text.head? = some '\x7b') :
    ∃ space members, Blank space ∧ (∀ member ∈ members, member.Grammatical) ∧
      text = objectText space members := by
  cases h with
  | @object space members hspace hspaced hkeys hvalues =>
    refine ⟨space, members, hspace, fun member hmember => ?_, rfl⟩
    exact ⟨hspaced member hmember, hkeys member hmember, hvalues member hmember⟩
  | number hnumeral => cases Reader.startsNumber_of_head hnumeral hc
  | bool value => cases value <;> cases hc
  | null | string | array => cases hc

theorem items_of_head (h : Written text) (hc : text.head? = some '[') :
    ∃ space items, Blank space ∧ (∀ item ∈ items, item.Spaced ∧ Written item.value) ∧
      text = arrayText space items := by
  cases h with
  | @array space items hspace hspaced hvalues =>
    refine ⟨space, items, hspace, fun item hitem => ?_, rfl⟩
    exact ⟨hspaced item hitem, hvalues item hitem⟩
  | number hnumeral => cases Reader.startsNumber_of_head hnumeral hc
  | bool value => cases value <;> cases hc
  | null | string | object => cases hc

end Written

namespace Reader

theorem settled_first (h : Written text)
    (hnext : ∀ c, text.head? = some c → Settled ends (next c) text) :
    Settled ends (firstOfValue >>= next) text := by
  obtain ⟨c, hc, hspace, -⟩ := h.head
  exact (firstOfValue_on hc hspace).settled (hnext c hc)

/-- Any value that stands where another type is wanted is refused. -/
theorem denies_wrongType (wanted : Wanted) (h : Written text) :
    Denies EndsNumber (wrongType (α := α) wanted) text := by
  cases h with
  | null =>
    have hnull : Settled EndsNumber (literal "null") "null".toList := .of_takes takes_null
    exact (byFirst_on rfl).denies (hnull.bind_denied fun _ _ _ => .failHere)
  | bool value =>
    have hbool : Settled EndsNumber (boolLiteral value) _ := .of_takes (takes_bool value)
    cases value <;> exact (byFirst_on rfl).denies (hbool.bind_denied fun _ _ _ => .failHere)
  | number hnumeral =>
    obtain ⟨c, hc, hstart⟩ := head?_numeral hnumeral
    exact (byFirst_number hc hstart).denies
      ((settled_number hnumeral).bind_denied fun _ _ _ => .failHere)
  | string hletters =>
    exact (byFirst_on rfl).denies
      ((settled_quotedString hletters).bind_denied fun _ _ _ => .failHere)
  | array => exact (byFirst_on rfl).denies fun _ _ => .failHere
  | object => exact (byFirst_on rfl).denies fun _ _ => .failHere

theorem settled_double (h : Written text) : Settled EndsNumber double text := by
  apply settled_first h
  intro c hc
  by_cases hstart : startsNumber c = true
  · rw [if_pos hstart]
    exact (settled_number (h.numeral_of_head hc hstart)).bind_last fun _ => .pure _
  · rw [if_neg hstart]
    exact .inr (denies_wrongType _ h)

theorem settled_text (h : Written text) : Settled EndsNumber Reader.text text := by
  apply settled_first h
  intro c hc
  by_cases hquote : c = '"'
  · subst hquote
    obtain ⟨letters, hletters, rfl⟩ := h.letters_of_head hc
    rw [if_pos rfl]
    exact settled_quotedString hletters
  · rw [if_neg hquote]
    exact .inr (denies_wrongType _ h)

theorem settled_unit (h : Written text) : Settled EndsNumber unit text := by
  apply settled_first h
  intro c hc
  by_cases hnull : c = 'n'
  · subst hnull
    rw [if_pos rfl, h.null_of_head hc]
    exact .of_takes takes_null
  · rw [if_neg hnull]
    exact .inr (denies_wrongType _ h)

theorem settled_optional (h : Written text) (hreader : Settled EndsNumber reader text) :
    Settled EndsNumber (optional reader) text := by
  apply settled_first h
  intro c hc
  by_cases hnull : c = 'n'
  · subst hnull
    rw [if_pos rfl, h.null_of_head hc]
    exact .of_takes (takes_null.bind_last (.pure none))
  · rw [if_neg hnull]
    exact hreader.map

/-! All of them move over space in front. -/

theorem skipsSpace_double : SkipsSpace double := SkipsSpace.bind skipsSpace_firstOfValue

theorem skipsSpace_text : SkipsSpace Reader.text := SkipsSpace.bind skipsSpace_firstOfValue

theorem skipsSpace_unit : SkipsSpace unit := SkipsSpace.bind skipsSpace_firstOfValue

theorem skipsSpace_optional : SkipsSpace (optional reader) := SkipsSpace.bind skipsSpace_firstOfValue

/-! Names. -/

variable {known : List (String × α)}

theorem settled_chosen (name : String) : Settled ends (chosen known name) [] := by
  unfold chosen
  split
  · exact .pure _
  · exact .inr fun _ _ => .failHere

/-- A name stands in front of the space and the colon. -/
theorem settled_variantKey {letters gap : List Char} (hspace : Blank space) (hkey : Letters letters)
    (hgap : Blank gap) :
    Settled ends (variantKey known) (space ++ (inQuotes letters ++ (gap ++ [':']))) := by
  have hquoted : Settled (fun _ => True) quotedString (inQuotes letters) := settled_quotedString hkey
  have hcolon : Settled ends colon (gap ++ [':']) := .of_takes fun _ _ => reads_colon_behind hgap
  have hname (name : String) : Settled ends (do let value ← chosen known name; colon; pure value)
      ([] ++ (gap ++ [':'])) := by
    have hchosen : Settled (fun _ => True) (chosen known name) [] := settled_chosen name
    exact hchosen.bind (fun _ _ => trivial) fun value => hcolon.bind_last fun _ => .pure value
  have hkeyed : Settled ends (do
      let name ← quotedString
      let value ← chosen known name
      colon
      pure value) (inQuotes letters ++ (gap ++ [':'])) :=
    hquoted.bind (fun _ _ => trivial) hname
  exact settled_blank_bind hspace (by decide) (Settled.peek_bind rfl hkeyed)

theorem refuses_variantKey (hspace : Blank space) :
    Refuses (variantKey known) (space ++ '\x7d' :: behind) := by
  apply Refuses.of_reads (reads_blank hspace (by decide))
  exact Refuses.of_reads_nil reads_peek refuses_failNext

theorem settled_variantEnd (hspace : Blank space) (items : List Item) :
    Settled ends variantEnd (partsText false space items ++ ['\x7d']) := by
  cases items with
  | nil =>
    apply settled_blank_bind hspace (by decide)
    apply Settled.peek_bind rfl
    exact .of_takes fun _ _ => reads_next
  | cons item items =>
    rw [partsText, opening, if_neg Bool.false_ne_true, List.append_assoc, List.append_assoc]
    apply settled_blank_bind hspace (by decide)
    apply Settled.peek_bind rfl
    exact .inr fun _ _ => .failHere

theorem settled_name (h : Written text) : Settled EndsNumber (name known) text := by
  apply settled_first h
  intro c hc
  by_cases hquote : c = '"'
  · subst hquote
    obtain ⟨letters, hletters, rfl⟩ := h.letters_of_head hc
    rw [if_pos rfl]
    exact (settled_quotedString hletters).bind_last fun name => settled_chosen name
  rw [if_neg hquote]
  by_cases hbrace : c = '\x7b'
  · subst hbrace
    obtain ⟨space, members, hspace, hmembers, rfl⟩ := h.members_of_head hc
    rw [if_pos rfl, objectText_eq]
    apply Settled.next_bind
    cases members with
    | nil =>
      refine .inr fun behind _ => .bind ?_
      rw [List.append_assoc]
      exact refuses_variantKey hspace
    | cons member members =>
      obtain ⟨hspaced, hkey, hvalue⟩ := hmembers member List.mem_cons_self
      have htext : partsText true space (Member.parts (member :: members)) ++ ['\x7d'] =
          (member.before ++ (inQuotes member.key ++ (member.gap ++ [':']))) ++
            ((member.front ++ member.value) ++
              (partsText false member.behind (Member.parts members) ++ ['\x7d'])) := by
        simp [partsText_member, opening]
      have hlabel : Settled (fun _ => True) (variantKey known) _ :=
        settled_variantKey hspaced.before hkey hspaced.gap
      have hunit : Settled EndsNumber unit (member.front ++ member.value) :=
        skipsSpace_unit.settled hspaced.front (settled_unit hvalue)
      rw [htext]
      apply Settled.bind hlabel fun _ _ => trivial
      intro value
      apply Settled.bind hunit
      · intro behind _
        rw [List.append_assoc]
        exact endsNumber_parts hspaced.behind (forall_head? (by decide))
      · exact fun _ => (settled_variantEnd hspaced.behind _).bind_last fun _ => .pure value
  · rw [if_neg hbrace]
    exact .inr fun _ _ => refuses_failNext

end Reader
end AnimationKit.Json
