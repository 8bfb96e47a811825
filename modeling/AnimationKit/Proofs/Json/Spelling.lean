import AnimationKit.Json.Skipping
import AnimationKit.Proofs.Json.Settled

/-!
A string is taken as the text that it spells, and refused if it spells none. Where nobody wants the
string, any is moved over.
-/
namespace AnimationKit.Json.Reader

variable {α : Type} {ends : List Char → Prop} {text behind letters chars digits : List Char} {c : Char}
  {n : Nat}

theorem utf8Size_of_hexDigit? {m : Nat} (h : hexDigit? c = some m) : c.utf8Size = 1 := by
  have hsmall : c.val ≤ 127 := by
    unfold hexDigit? at h
    split at h
    · rename_i hdigit
      simp only [Char.isDigit, Bool.and_eq_true, decide_eq_true_eq] at hdigit
      exact UInt32.le_trans hdigit.2 (by decide)
    split at h
    · rename_i hlower
      exact UInt32.le_trans hlower.2 (by decide)
    split at h
    · rename_i hupper
      exact UInt32.le_trans hupper.2 (by decide)
    · cases h
  exact Char.utf8Size_eq_one_iff.mpr hsmall

theorem hexDigit?_of_hexNumber? (h : hexNumber? digits = some n) :
    ∀ c ∈ digits, ∃ m, hexDigit? c = some m := by
  unfold hexNumber? at h
  generalize 0 = start at h
  induction digits generalizing start with
  | nil => simp
  | cons c digits ih =>
    rw [List.foldlM_cons, Option.bind_eq_bind, Option.bind_eq_some_iff] at h
    obtain ⟨first, hfirst, hrest⟩ := h
    obtain ⟨m, hm, -⟩ := Option.map_eq_some_iff.mp hfirst
    exact List.forall_mem_cons.mpr ⟨⟨m, hm⟩, ih first hrest⟩

theorem utf8Length_of_forall (h : ∀ c ∈ chars, c.utf8Size = 1) :
    utf8Length chars = chars.length := by
  have hsum (start : Nat) : (chars.map Char.utf8Size).foldl (· + ·) start = start + chars.length := by
    induction chars generalizing start with
    | nil => rfl
    | cons c chars ih =>
      rw [List.forall_mem_cons] at h
      rw [List.map_cons, List.foldl_cons, ih h.2, h.1, List.length_cons]
      omega
  rw [utf8Length, hsum, Nat.zero_add]

theorem reads_hex (h : Hex digits n) : Reads hexEscape digits n behind := by
  refine reads_hexEscape h.length ?_ h.number
  rw [utf8Length_of_forall, h.length]
  intro c hc
  obtain ⟨m, hm⟩ := hexDigit?_of_hexNumber? h.number c hc
  exact utf8Size_of_hexDigit? hm

/-! Escapes. -/

theorem reads_numericEscape (h : Hex digits n) (hleading : isLeadingSurrogate n = false)
    (htrailing : isTrailingSurrogate n = false) :
    Reads numericEscape digits (Char.ofNat n) behind := by
  apply Reads.bind_last (reads_hex h)
  simp only [hleading, htrailing, Bool.false_eq_true, if_false]
  exact Reads.pure _ _

theorem reads_pairing : Reads (pairing c) [c] () behind := by
  apply peek_bind
  simp only [List.cons_append, List.head?_cons, if_true]
  exact reads_next

theorem isTrailingSurrogate_of_leading (h : isLeadingSurrogate n = true) :
    isTrailingSurrogate n = false := by
  simp only [isLeadingSurrogate, isTrailingSurrogate, Bool.and_eq_true, decide_eq_true_eq,
    Bool.and_eq_false_iff, decide_eq_false_iff_not] at h ⊢
  omega

theorem refuses_trailing (h : Hex digits n) (htrailing : isTrailingSurrogate n = true) :
    Refuses numericEscape (digits ++ text) := by
  apply Refuses.of_reads (reads_hex h)
  rw [if_pos htrailing]
  exact .failHere

/-- What has to stand behind the first half of a surrogate pair, and both halves together. -/
def pairingRest (n : Nat) : Reader Char := do
  pairing '\\'
  pairing 'u'
  let m ← hexEscape
  if isTrailingSurrogate m then pure (surrogatePair n m) else failHere .loneSurrogate

theorem numericEscape_leading (hleading : isLeadingSurrogate n = true) :
    (if isTrailingSurrogate n then failHere .loneSurrogate
      else if isLeadingSurrogate n then pairingRest n else pure (Char.ofNat n)) = pairingRest n := by
  rw [isTrailingSurrogate_of_leading hleading, if_neg Bool.false_ne_true, if_pos hleading]

theorem numericEscape_eq : numericEscape = (do
    let n ← hexEscape
    if isTrailingSurrogate n then failHere .loneSurrogate
      else if isLeadingSurrogate n then pairingRest n else pure (Char.ofNat n)) :=
  rfl

theorem reads_surrogates {digits' : List Char} {m : Nat} (h : Hex digits n) (h' : Hex digits' m)
    (hleading : isLeadingSurrogate n = true) (htrailing : isTrailingSurrogate m = true) :
    Reads numericEscape (digits ++ '\\' :: 'u' :: digits') (surrogatePair n m) behind := by
  have hlast : Reads (do
      let m ← hexEscape
      if isTrailingSurrogate m then pure (surrogatePair n m) else failHere .loneSurrogate) digits'
      (surrogatePair n m) behind := by
    apply Reads.bind_last (reads_hex h')
    rw [if_pos htrailing]
    exact Reads.pure _ _
  have hrest : Reads (pairingRest n) (['\\'] ++ (['u'] ++ digits')) (surrogatePair n m) behind :=
    Reads.bind reads_pairing (Reads.bind reads_pairing hlast)
  rw [numericEscape_eq]
  apply Reads.bind (reads_hex h)
  rw [numericEscape_leading hleading]
  exact hrest

theorem refuses_pairing {d : Char} (h : d ≠ c) : Refuses (pairing c) (d :: text) := by
  apply Refuses.of_reads_nil reads_peek
  simp only [List.head?_cons, h, if_false]
  exact fun _ => ⟨_, rfl⟩

theorem refuses_paired {rest : Unit → Reader α} (h : Refuses (rest ()) text) :
    Refuses (pairing c >>= rest) (c :: text) := by
  have hread : Refuses (pairing c >>= rest) ([c] ++ text) := .of_reads reads_pairing h
  exact hread

theorem refuses_leading (h : Hex digits n) (hleading : isLeadingSurrogate n = true)
    (hrest : Refuses (pairingRest n) text) : Refuses numericEscape (digits ++ text) := by
  rw [numericEscape_eq]
  apply Refuses.of_reads (reads_hex h)
  rwa [numericEscape_leading hleading]

/-! Characters up to the closing quote. -/

variable {bound : Nat} {before : List Char}

theorem stringRest_plain (hquote : c ≠ '"') (hbackslash : c ≠ '\\') (hcontrol : ¬ c < ' ') :
    SameOn (c :: text) (stringRest (bound + 1) before)
      (do Reader.next; stringRest bound (c :: before)) := by
  intro behind offset
  show (if c = '"' then _ else if c = '\\' then _ else if c < ' ' then _ else _ : Reader String) _ = _
  rw [if_neg hquote, if_neg hbackslash, if_neg hcontrol]

theorem stringRest_escape : SameOn ('\\' :: text) (stringRest (bound + 1) before)
    (do Reader.next; let meaning ← escape; stringRest bound (meaning :: before)) :=
  fun _ _ => rfl

theorem stringRest_end : SameOn ('"' :: text) (stringRest (bound + 1) before)
    (do Reader.next; pure (String.ofList before.reverse)) :=
  fun _ _ => rfl

theorem escape_numeric : SameOn ('u' :: text) escape (do Reader.next; numericEscape) :=
  fun _ _ => rfl

/-- An escape of any length and the rest behind it. -/
theorem reads_escaped {marks rest : List Char} {read : String}
    (hescape : Reads escape marks c (rest ++ behind))
    (hrest : Reads (stringRest bound (c :: before)) rest read behind) :
    Reads (stringRest (bound + 1) before) ('\\' :: (marks ++ rest)) read behind :=
  stringRest_escape.reads (next_bind (Reads.bind hescape hrest))

theorem reads_spelled (h : Spells letters chars) (hbound : letters.length < bound) :
    Reads (stringRest bound before) (letters ++ ['"']) (String.ofList (before.reverseAux chars))
      behind := by
  induction h generalizing bound before with
  | nil =>
    obtain ⟨bound, rfl⟩ := Nat.exists_eq_add_one.mpr hbound
    exact stringRest_end.reads (next_bind (Reads.pure _ behind))
  | @plain c letters chars hquote hbackslash hcontrol _ ih =>
    obtain ⟨bound, rfl⟩ := Nat.exists_eq_add_one.mpr (Nat.zero_lt_of_lt hbound)
    have hrest : Reads (stringRest bound (c :: before)) _ _ behind := ih (Nat.lt_of_succ_lt_succ hbound)
    exact (stringRest_plain hquote hbackslash hcontrol).reads (next_bind hrest)
  | @escape mark c letters chars hmark _ ih =>
    obtain ⟨bound, rfl⟩ := Nat.exists_eq_add_one.mpr (Nat.zero_lt_of_lt hbound)
    simp only [List.length_cons] at hbound
    have hrest : Reads (stringRest bound (c :: before)) _ _ behind := ih (by omega)
    have hescape : Reads escape [mark] c (letters ++ ['"'] ++ behind) :=
      reads_escape_simple hmark
    have hread := reads_escaped hescape hrest
    exact hread
  | @numeric digits letters chars n hdigits hleading htrailing _ ih =>
    obtain ⟨bound, rfl⟩ := Nat.exists_eq_add_one.mpr (Nat.zero_lt_of_lt hbound)
    simp only [List.length_cons, List.length_append] at hbound
    have hrest : Reads (stringRest bound (Char.ofNat n :: before)) _ _ behind := ih (by omega)
    have hescape : Reads escape ('u' :: digits) (Char.ofNat n) (letters ++ ['"'] ++ behind) :=
      escape_numeric.reads (next_bind (reads_numericEscape hdigits hleading htrailing))
    have hread := reads_escaped hescape hrest
    simpa using hread
  | @pair digits digits' letters chars n m hdigits hdigits' hleading htrailing _ ih =>
    obtain ⟨bound, rfl⟩ := Nat.exists_eq_add_one.mpr (Nat.zero_lt_of_lt hbound)
    simp only [List.length_cons, List.length_append] at hbound
    have hrest : Reads (stringRest bound (surrogatePair n m :: before)) _ _ behind := ih (by omega)
    have hescape : Reads escape ('u' :: (digits ++ '\\' :: 'u' :: digits')) (surrogatePair n m)
        (letters ++ ['"'] ++ behind) :=
      escape_numeric.reads (next_bind (reads_surrogates hdigits hdigits' hleading htrailing))
    have hread := reads_escaped hescape hrest
    simpa using hread

theorem refuses_numbered {next : Char → Reader α} (h : Refuses (numericEscape >>= next) text) :
    Refuses (escape >>= next) ('u' :: text) :=
  fun offset => h (offset + 'u'.utf8Size)

/-- What is refused inside an escape, or behind it, is refused in a string. -/
theorem refuses_escaped
    (h : Refuses (escape >>= fun meaning => stringRest bound (meaning :: before)) text) :
    Refuses (stringRest (bound + 1) before) ('\\' :: text) :=
  fun offset => h (offset + '\\'.utf8Size)

/-- What spells no text is refused, and so is what follows a leading surrogate that it is not the
other half of. -/
theorem refuses_unspelled (h : Letters letters) :
    ((∀ chars, ¬ Spells letters chars) → ∀ bound before,
      Refuses (stringRest bound before) (letters ++ '"' :: behind)) ∧
    ∀ digits n, Hex digits n → isLeadingSurrogate n = true →
      (∀ chars, ¬ Spells ('\\' :: 'u' :: (digits ++ letters)) chars) → ∀ bound before,
      Refuses (numericEscape >>= fun meaning => stringRest bound (meaning :: before))
        (digits ++ (letters ++ '"' :: behind)) := by
  induction h with
  | nil =>
    constructor
    · exact fun hnot => (hnot [] .nil).elim
    · intro digits n hdigits hleading _ bound before
      exact .bind (refuses_leading hdigits hleading (.bind (refuses_pairing (by decide))))
  | @plain c letters hquote hbackslash hcontrol _ ih =>
    constructor
    · intro hnot bound before
      cases bound with
      | zero => exact .failHere
      | succ bound =>
        have hrest := ih.1 (fun chars hchars => hnot _ (.plain hquote hbackslash hcontrol hchars))
          bound (c :: before)
        exact (stringRest_plain hquote hbackslash hcontrol).refuses (Refuses.next_bind hrest)
    · intro digits n hdigits hleading _ bound before
      exact .bind (refuses_leading hdigits hleading (.bind (refuses_pairing hbackslash)))
  | @escape mark c letters hmark _ ih =>
    constructor
    · intro hnot bound before
      cases bound with
      | zero => exact .failHere
      | succ bound =>
        have hrest := ih.1 (fun chars hchars => hnot _ (.escape hmark hchars)) bound (c :: before)
        have hescape : Reads escape [mark] c (letters ++ '"' :: behind) :=
          reads_escape_simple hmark
        have hread : Refuses (escape >>= fun meaning => stringRest bound (meaning :: before))
            ([mark] ++ (letters ++ '"' :: behind)) := .of_reads hescape hrest
        exact refuses_escaped hread
    · intro digits n hdigits hleading _ bound before
      refine .bind (refuses_leading hdigits hleading ?_)
      exact refuses_paired (.bind (refuses_pairing (ne_u_of_simpleEscape? hmark)))
  | @numeric digits' letters m hdigits' _ ih =>
    constructor
    · intro hnot bound before
      cases bound with
      | zero => exact .failHere
      | succ bound =>
        rw [List.cons_append, List.cons_append, List.append_assoc]
        apply refuses_escaped
        have hnumeric : Refuses (numericEscape >>= fun meaning => stringRest bound (meaning :: before))
            (digits' ++ (letters ++ '"' :: behind)) := by
          by_cases hleading : isLeadingSurrogate m = true
          · exact ih.2 digits' m hdigits' hleading hnot bound before
          rw [Bool.not_eq_true] at hleading
          by_cases htrailing : isTrailingSurrogate m = true
          · exact .bind (refuses_trailing hdigits' htrailing)
          rw [Bool.not_eq_true] at htrailing
          refine .of_reads (reads_numericEscape hdigits' hleading htrailing) (ih.1 ?_ bound _)
          exact fun chars hchars => hnot _ (.numeric hdigits' hleading htrailing hchars)
        exact refuses_numbered hnumeric
    · intro digits n hdigits hleading hnot bound before
      by_cases htrailing : isTrailingSurrogate m = true
      · have hread : Refuses (numericEscape >>= fun meaning => stringRest bound (meaning :: before))
            ((digits ++ '\\' :: 'u' :: digits') ++ (letters ++ '"' :: behind)) :=
          .of_reads (reads_surrogates hdigits hdigits' hleading htrailing)
            (ih.1 (fun chars hchars => hnot _ (.pair hdigits hdigits' hleading htrailing hchars))
              bound _)
        simpa using hread
      · have hlast : Refuses (do
            let m ← hexEscape
            if isTrailingSurrogate m then pure (surrogatePair n m) else failHere .loneSurrogate)
            (digits' ++ (letters ++ '"' :: behind)) := by
          apply Refuses.of_reads (reads_hex hdigits')
          rw [if_neg htrailing]
          exact .failHere
        rw [List.cons_append, List.cons_append, List.append_assoc]
        exact .bind (refuses_leading hdigits hleading (refuses_paired (refuses_paired hlast)))

theorem takes_spelled (h : Spells letters chars) :
    Takes ends quotedString (inQuotes letters) (String.ofList chars) := by
  intro behind _
  apply next_bind
  apply ahead_bind
  exact reads_spelled h (by simp only [List.length_append]; omega)

theorem denies_unspelled (h : Letters letters) (hnot : ∀ chars, ¬ Spells letters chars) :
    Denies ends quotedString (inQuotes letters) := by
  intro behind _
  have htext : inQuotes letters ++ behind = '"' :: (letters ++ '"' :: behind) := by
    simp [inQuotes]
  rw [htext]
  apply Refuses.next_bind
  apply Refuses.of_reads_nil reads_ahead
  exact (refuses_unspelled h).1 hnot _ _

theorem settled_quotedString (h : Letters letters) :
    Settled ends quotedString (inQuotes letters) := by
  by_cases hspelled : ∃ chars, Spells letters chars
  · obtain ⟨chars, hchars⟩ := hspelled
    exact .of_takes (takes_spelled hchars)
  · exact .inr (denies_unspelled h fun chars hchars => hspelled ⟨chars, hchars⟩)

/-- A string spells one text. -/
theorem spells_unique {chars' : List Char} (h : Spells letters chars) (h' : Spells letters chars') :
    chars = chars' := by
  have htakes : Takes (fun _ => True) quotedString (inQuotes letters) _ := takes_spelled h
  have htakes' : Takes (fun _ => True) quotedString (inQuotes letters) _ := takes_spelled h'
  exact String.ofList_injective ((htakes [] trivial).value_eq (htakes' [] trivial))

/-! Strings that nobody wants. -/

theorem reads_skipEscape {mark : Char} (h : simpleEscape? mark = some c) :
    Reads skipEscape [mark] () behind := by
  have hmark := ne_u_of_simpleEscape? h
  have hknown : (simpleEscape? mark).isSome = true := by
    rw [h]
    rfl
  apply peek_bind
  simp only [List.cons_append, List.head?_cons, hmark, if_false, hknown, if_true]
  exact reads_next

theorem reads_skipEscape_numeric (h : Hex digits n) : Reads skipEscape ('u' :: digits) () behind :=
  peek_bind (next_bind (Reads.bind_last (reads_hex h) (Reads.pure _ _)))

theorem reads_skipStringRest (h : Letters letters) (hbound : letters.length < bound) :
    Reads (skipStringRest bound) (letters ++ ['"']) () behind := by
  induction h generalizing bound with
  | nil =>
    obtain ⟨bound, rfl⟩ := Nat.exists_eq_add_one.mpr hbound
    exact peek_bind reads_next
  | @plain c letters hquote hbackslash hcontrol _ ih =>
    obtain ⟨bound, rfl⟩ := Nat.exists_eq_add_one.mpr (Nat.zero_lt_of_lt hbound)
    apply peek_bind
    simp only [List.cons_append, List.head?_cons, hquote, hbackslash, hcontrol, if_false]
    exact next_bind (ih (Nat.lt_of_succ_lt_succ hbound))
  | @escape mark c letters hmark _ ih =>
    obtain ⟨bound, rfl⟩ := Nat.exists_eq_add_one.mpr (Nat.zero_lt_of_lt hbound)
    simp only [List.length_cons] at hbound
    have hread : Reads (skipEscape >>= fun _ => skipStringRest bound) ([mark] ++ (letters ++ ['"'])) ()
        behind := Reads.bind (reads_skipEscape hmark) (ih (by omega))
    exact peek_bind (next_bind hread)
  | @numeric digits letters n hdigits _ ih =>
    obtain ⟨bound, rfl⟩ := Nat.exists_eq_add_one.mpr (Nat.zero_lt_of_lt hbound)
    simp only [List.length_cons, List.length_append] at hbound
    have hread : Reads (skipEscape >>= fun _ => skipStringRest bound)
        (('u' :: digits) ++ (letters ++ ['"'])) () behind :=
      Reads.bind (reads_skipEscape_numeric hdigits) (ih (by omega))
    rw [List.cons_append, List.cons_append, List.append_assoc]
    exact peek_bind (next_bind hread)

theorem takes_skipString (h : Letters letters) : Takes ends skipString (inQuotes letters) () := by
  intro behind _
  apply next_bind
  apply ahead_bind
  exact reads_skipStringRest h (by simp only [List.length_append]; omega)

end AnimationKit.Json.Reader
