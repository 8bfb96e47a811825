import AnimationKit.Json.Typed
import AnimationKit.Proofs.Binary64.Order

/-!
What a reader can give, whatever the text. Every number that is read is finite, and a record keeps
what each of its fields keeps.
-/
namespace AnimationKit.Json

variable {α β : Type} {reader : Reader α} {next : α → Reader β} {property : α → Prop}
  {result : β → Prop}

/-- Every value that a reader gives has a property. -/
structure Gives (reader : Reader α) (property : α → Prop) : Prop where
  of_ok : ∀ {cursor value after}, reader cursor = .ok (value, after) → property value

namespace Gives

theorem mono {other : α → Prop} (h : Gives reader property)
    (himp : ∀ value, property value → other value) : Gives reader other :=
  ⟨fun hread => himp _ (h.of_ok hread)⟩

theorem pure {value : α} (h : property value) : Gives (Pure.pure value) property := by
  constructor
  intro cursor value' after hread
  obtain ⟨rfl, -⟩ := Prod.mk.inj (Except.ok.inj hread)
  exact h

theorem fail {failure : Cursor → Failure} : Gives (fun cursor => .error (failure cursor)) property :=
  ⟨fun hread => nomatch hread⟩

theorem bind (h : Gives reader property) (hnext : ∀ value, property value → Gives (next value) result) :
    Gives (reader >>= next) result := by
  constructor
  intro cursor value after hread
  have hbind : Except.bind (reader cursor) (fun step => next step.1 step.2) = .ok (value, after) :=
    hread
  cases hfirst : reader cursor with
  | error failure =>
    rw [hfirst] at hbind
    contradiction
  | ok step =>
    rw [hfirst] at hbind
    exact (hnext step.1 (h.of_ok hfirst)).of_ok hbind

/-- What came before does not matter. -/
theorem bind_any (hnext : ∀ value, Gives (next value) result) : Gives (reader >>= next) result :=
  bind ⟨fun _ => trivial⟩ fun value _ => hnext value

theorem map {f : α → β} (h : Gives reader fun value => result (f value)) :
    Gives (f <$> reader) result := by
  have hbind : Gives (reader >>= fun value => Pure.pure (f value)) result :=
    bind h fun _ hvalue => pure hvalue
  exact hbind

/-- What is read up to the end of a text. -/
theorem of_run {text : List Char} {value : α} (h : Gives reader property)
    (hrun : reader.run text = .ok value) : property value := by
  have hwhole : Gives reader.whole property := by
    refine bind h fun value hvalue => bind_any fun _ => bind_any fun first => ?_
    split
    · exact pure hvalue
    · exact fail
  unfold Reader.run at hrun
  split at hrun
  · rename_i value' after hread
    rw [← Except.ok.inj hrun]
    exact hwhole.of_ok hread
  · contradiction

end Gives

namespace Reader

theorem gives_failHere {cause : Cause} : Gives (failHere cause) property := Gives.fail

theorem gives_failNext {cause : Cause} : Gives (failNext cause) property := Gives.fail

theorem gives_failUnplaced {cause : Cause} : Gives (failUnplaced cause) property := Gives.fail

/-! Numbers. -/

theorem isFinite_ofInt {n : Int} (h : n.natAbs ≤ 2 ^ 64) : (Binary64.ofInt n).isFinite = true := by
  have hmono := Binary64.nearestRank_mono Nat.one_pos (Nat.mul_le_mul_right Binary64.one h)
  have hlimit : Binary64.nearestRank (2 ^ 64 * Binary64.one) 1 < topRank := by decide +kernel
  simp only [Binary64.ofInt, Binary64.ofUnits, Binary64.isFinite, decide_eq_true_eq]
  omega

theorem natAbs_of_wholeNumber? {negative : Bool} {n : Nat} {whole : Int}
    (h : wholeNumber? negative n = some whole) : whole.natAbs ≤ 2 ^ 64 := by
  unfold wholeNumber? at h
  split_ifs at h with _ hlow hhigh
  · rw [← Option.some.inj h, Int.natAbs_neg]
    have hle : n ≤ 2 ^ 63 := hlow.2
    omega
  · rw [← Option.some.inj h]
    have hlt : n < 2 ^ 64 := hhigh
    omega

theorem gives_unsigned (negative : Bool) :
    Gives (unsigned negative) fun n => n.toBinary64.isFinite = true := by
  apply Gives.bind_any
  intro before
  apply Gives.bind_any
  intro fraction
  apply Gives.bind_any
  intro exponent
  dsimp only
  split
  · rename_i n hwhole
    apply Gives.pure
    split at hwhole
    · exact isFinite_ofInt (natAbs_of_wholeNumber? hwhole)
    · contradiction
  · split
    · rename_i hfinite
      exact Gives.pure hfinite
    · exact gives_failHere

/-- Every number that is read is finite. -/
theorem gives_number : Gives number fun n => n.toBinary64.isFinite = true := by
  apply Gives.bind_any
  intro first
  split
  · exact Gives.bind_any fun _ => gives_unsigned true
  · exact gives_unsigned false

/-! Values of a wanted type. -/

theorem gives_byFirst {cases : Cases α} (hnull : Gives cases.null property)
    (hbool : ∀ b, Gives (cases.bool b) property) (hnumber : Gives cases.number property)
    (htext : Gives cases.text property) (harray : Gives cases.array property)
    (hobject : Gives cases.object property) : Gives (byFirst cases) property := by
  apply Gives.bind_any
  intro _
  apply Gives.bind_any
  intro first
  split
  · exact gives_failNext
  · split_ifs
    · exact hnull
    · exact hbool true
    · exact hbool false
    · exact hnumber
    · exact htext
    · exact harray
    · exact hobject
    · exact gives_failNext

theorem gives_wrongType {wanted : Wanted} : Gives (wrongType wanted) property := by
  apply gives_byFirst
  · exact Gives.bind_any fun _ => gives_failHere
  · exact fun _ => Gives.bind_any fun _ => gives_failHere
  · exact Gives.bind_any fun _ => gives_failHere
  · exact Gives.bind_any fun _ => gives_failHere
  · exact gives_failHere
  · exact gives_failHere

theorem gives_double : Gives double fun x => x.isFinite = true := by
  apply Gives.bind_any
  intro first
  split
  · exact Gives.bind gives_number fun _ hfinite => Gives.pure hfinite
  · exact gives_wrongType

/-- What is there has the property of what was read. -/
theorem gives_optional (h : Gives reader property) :
    Gives (optional reader) fun value => ∀ a ∈ value, property a := by
  apply Gives.bind_any
  intro first
  split
  · exact Gives.bind_any fun _ => Gives.pure fun a ha => nomatch ha
  · refine Gives.map (h.mono ?_)
    intro value hvalue a ha
    rwa [← Option.some.inj ha]

theorem gives_items (bound : Nat) (first : Bool) (h : Gives reader property) :
    Gives (items reader bound first) fun values => ∀ value ∈ values, property value := by
  induction bound generalizing first with
  | zero => exact gives_failHere
  | succ bound ih =>
    apply Gives.bind_any
    intro more
    split
    · apply Gives.bind h
      intro value hvalue
      refine Gives.bind (ih false) ?_
      intro rest hrest
      exact Gives.pure (List.forall_mem_cons.mpr ⟨hvalue, hrest⟩)
    · exact Gives.bind_any fun _ => Gives.pure (List.forall_mem_nil _)

theorem gives_members (bound : Nat) (first : Bool) (h : Gives reader property) :
    Gives (members reader bound first) fun values => ∀ member ∈ values, property member.2 := by
  induction bound generalizing first with
  | zero => exact gives_failHere
  | succ bound ih =>
    apply Gives.bind_any
    intro more
    split
    · apply Gives.bind_any
      intro key
      apply Gives.bind_any
      intro _
      refine Gives.bind h ?_
      intro value hvalue
      refine Gives.bind (ih false) ?_
      intro rest hrest
      exact Gives.pure (List.forall_mem_cons.mpr ⟨hvalue, hrest⟩)
    · exact Gives.bind_any fun _ => Gives.pure (List.forall_mem_nil _)

theorem gives_enclosed {close : Reader Unit} {attempt : Cursor → Cursor}
    (h : Gives reader property) : Gives (enclosed reader close attempt) property := by
  constructor
  intro cursor value after hread
  unfold enclosed at hread
  split at hread
  · rename_i inner place hinside
    split at hread
    · obtain ⟨rfl, -⟩ := Prod.mk.inj (Except.ok.inj hread)
      exact h.of_ok hinside
    · contradiction
  · contradiction
  · contradiction

end Reader

/-- All numbers in a value are finite. -/
inductive Value.Finite : Value → Prop where
  | null : Finite .null
  | bool (b : Bool) : Finite (.bool b)
  | number {n : Number} (h : n.toBinary64.isFinite = true) : Finite (.number n)
  | text (s : String) : Finite (.text s)
  | array {items : List Value} (h : ∀ item ∈ items, Finite item) : Finite (.array items)
  | object {members : List (String × Value)} (h : ∀ member ∈ members, Finite member.2) :
    Finite (.object members)

namespace Reader

theorem gives_scalars {array object : Reader Value} (harray : Gives array Value.Finite)
    (hobject : Gives object Value.Finite) :
    Gives (byFirst (value.scalars array object)) Value.Finite := by
  apply gives_byFirst
  · exact Gives.bind_any fun _ => Gives.pure .null
  · exact fun b => Gives.bind_any fun _ => Gives.pure (.bool b)
  · exact Gives.map (gives_number.mono fun _ h => .number h)
  · exact Gives.map ⟨fun _ => .text _⟩
  · exact harray
  · exact hobject

theorem gives_value (depth : Nat) : Gives (value depth) Value.Finite := by
  induction depth with
  | zero => exact gives_scalars gives_failNext gives_failNext
  | succ depth ih =>
    apply gives_scalars
    · exact Gives.bind_any fun _ => Gives.bind_any fun _ =>
        Gives.map ((gives_items _ true ih).mono fun _ h => .array h)
    · exact Gives.bind_any fun _ => Gives.bind_any fun _ =>
        Gives.map ((gives_members _ true ih).mono fun _ h => .object h)

end Reader

namespace RecordShape

variable {shape : RecordShape α} {invariant : α → Prop}

/-- Reading a field changes a record in a way that keeps an invariant. -/
def Keeps (shape : RecordShape α) (invariant : α → Prop) : Prop :=
  ∀ field ∈ shape.fields, Gives field.read fun change => ∀ record, invariant record →
    invariant (change record)

theorem gives_readMember {record : α} {seen : List String} {key : String}
    (h : shape.Keeps invariant) (hrecord : invariant record) :
    Gives (shape.readMember record seen key) fun step => invariant step.1 := by
  unfold readMember
  split
  · rename_i field hfield
    split_ifs
    · exact Reader.gives_failUnplaced
    · apply Gives.bind_any
      intro _
      refine Gives.bind (h field (List.mem_of_find?_eq_some hfield)) ?_
      intro change hchange
      exact Gives.pure (hchange record hrecord)
  · exact Gives.bind_any fun _ => Gives.bind_any fun _ => Gives.pure hrecord

theorem gives_readMembers {bound : Nat} {first : Bool} {record : α} {seen : List String}
    (h : shape.Keeps invariant) (hrecord : invariant record) :
    Gives (shape.readMembers bound first record seen) invariant := by
  induction bound generalizing first record seen with
  | zero => exact Reader.gives_failHere
  | succ bound ih =>
    apply Gives.bind_any
    intro more
    split
    · apply Gives.bind_any
      intro key
      exact Gives.bind (gives_readMember h hrecord) fun step hstep => ih hstep
    · split
      · exact Reader.gives_failUnplaced
      · exact Gives.pure hrecord

theorem gives_readItems {wanted : Wanted} {size index : Nat} {record : α} {fields : List (Field α)}
    (h : ∀ field ∈ fields, Gives field.read fun change => ∀ record, invariant record →
      invariant (change record)) (hrecord : invariant record) :
    Gives (readItems wanted size fields index record) invariant := by
  induction fields generalizing index record with
  | nil => exact Gives.pure hrecord
  | cons field fields ih =>
    obtain ⟨hfield, hrest⟩ := List.forall_mem_cons.mp h
    apply Gives.bind_any
    intro more
    split
    · apply Gives.bind hfield
      intro change hchange
      exact ih hrest (hchange record hrecord)
    · split_ifs
      · exact Reader.gives_failUnplaced
      · exact ih hrest hrecord

/-- An invariant of the initial record holds of every record that is read, as an object or as an
array. -/
theorem gives_read {initial : α} (h : shape.Keeps invariant) (hinitial : invariant initial) :
    Gives (shape.read initial) invariant := by
  apply Gives.bind_any
  intro first
  split_ifs
  · exact Gives.bind_any fun _ => Gives.bind_any fun _ =>
      Reader.gives_enclosed (gives_readMembers h hinitial)
  · exact Gives.bind_any fun _ => Reader.gives_enclosed (gives_readItems h hinitial)
  · exact Reader.gives_wrongType

end RecordShape
end AnimationKit.Json
