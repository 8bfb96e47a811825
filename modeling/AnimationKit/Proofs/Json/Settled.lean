import AnimationKit.Proofs.Json.Grammar
import AnimationKit.Proofs.Json.Refusals

/-!
A text by itself settles what a reader does with it: the reader takes it as one and the same value,
or refuses it, whatever stands behind it.
-/
namespace AnimationKit.Json

variable {α β : Type} {reader reader' : Reader α} {next : α → Reader β} {value : α} {result : β}
  {ends inner : List Char → Prop} {text front middle behind : List Char} {c : Char}

def Takes (ends : List Char → Prop) (reader : Reader α) (text : List Char) (value : α) : Prop :=
  ∀ behind, ends behind → Reads reader text value behind

def Denies (ends : List Char → Prop) (reader : Reader α) (text : List Char) : Prop :=
  ∀ behind, ends behind → Refuses reader (text ++ behind)

def Settled (ends : List Char → Prop) (reader : Reader α) (text : List Char) : Prop :=
  (∃ value, Takes ends reader text value) ∨ Denies ends reader text

theorem Reads.value_eq {value' : α} (h : Reads reader text value behind)
    (h' : Reads reader text value' behind) : value = value' := by
  obtain ⟨_, hread⟩ := h 0
  obtain ⟨_, hread'⟩ := h' 0
  rw [hread] at hread'
  cases hread'
  rfl

theorem Reads.not_refuses (h : Reads reader text value behind) :
    ¬ Refuses reader (text ++ behind) := by
  intro hrefuses
  obtain ⟨_, hread⟩ := h 0
  obtain ⟨_, hfailure⟩ := hrefuses 0
  rw [hread] at hfailure
  cases hfailure

namespace Takes

theorem pure (value : α) : Takes ends (Pure.pure value) [] value :=
  fun behind _ => Reads.pure value behind

theorem bind (h : Takes inner reader text value)
    (hinner : ∀ behind, ends behind → inner (middle ++ behind))
    (hnext : Takes ends (next value) middle result) :
    Takes ends (reader >>= next) (text ++ middle) result :=
  fun behind hend => Reads.bind (h _ (hinner behind hend)) (hnext behind hend)

theorem bind_last (h : Takes ends reader text value) (hnext : Takes ends (next value) [] result) :
    Takes ends (reader >>= next) text result :=
  fun behind hend => Reads.bind_last (h behind hend) (hnext behind hend)

end Takes

/-- Two readers do the same where a text is in front of them. -/
def SameOn (text : List Char) (reader reader' : Reader α) : Prop :=
  ∀ behind offset, reader ⟨text ++ behind, offset⟩ = reader' ⟨text ++ behind, offset⟩

theorem SameOn.reads (h : SameOn text reader reader') (hreads : Reads reader' text value behind) :
    Reads reader text value behind := by
  intro offset
  rw [h]
  exact hreads offset

theorem SameOn.refuses (h : SameOn text reader reader')
    (hrefuses : Refuses reader' (text ++ behind)) : Refuses reader (text ++ behind) := by
  intro offset
  rw [h]
  exact hrefuses offset

theorem SameOn.takes (h : SameOn text reader reader') (htakes : Takes ends reader' text value) :
    Takes ends reader text value :=
  fun behind hend => h.reads (htakes behind hend)

theorem SameOn.denies (h : SameOn text reader reader') (hdenies : Denies ends reader' text) :
    Denies ends reader text :=
  fun behind hend => h.refuses (hdenies behind hend)

theorem SameOn.settled (h : SameOn text reader reader') (hsettled : Settled ends reader' text) :
    Settled ends reader text := by
  rcases hsettled with ⟨value, htakes⟩ | hdenies
  · exact .inl ⟨value, h.takes htakes⟩
  · exact .inr (h.denies hdenies)

namespace Settled

theorem of_takes (h : Takes ends reader text value) : Settled ends reader text := .inl ⟨value, h⟩

theorem pure (value : α) : Settled ends (Pure.pure value) [] := of_takes (.pure value)

theorem bind (h : Settled inner reader text)
    (hinner : ∀ behind, ends behind → inner (middle ++ behind))
    (hnext : ∀ value, Settled ends (next value) middle) :
    Settled ends (reader >>= next) (text ++ middle) := by
  rcases h with ⟨value, htakes⟩ | hdenies
  · rcases hnext value with ⟨result, hresult⟩ | hnext
    · exact of_takes (htakes.bind hinner hresult)
    · refine .inr fun behind hend => ?_
      rw [List.append_assoc]
      exact .of_reads (htakes _ (hinner behind hend)) (hnext behind hend)
  · refine .inr fun behind hend => ?_
    rw [List.append_assoc]
    exact .bind (hdenies _ (hinner behind hend))

theorem bind_last (h : Settled ends reader text) (hnext : ∀ value, Settled ends (next value) []) :
    Settled ends (reader >>= next) text := by
  have hbind : Settled ends (reader >>= next) (text ++ []) := bind h (fun _ hend => hend) hnext
  rwa [List.append_nil] at hbind

/-- Behind a text that is taken for sure. -/
theorem bind_takes (h : Takes inner reader text value)
    (hinner : ∀ behind, ends behind → inner (middle ++ behind))
    (hnext : Settled ends (next value) middle) :
    Settled ends (reader >>= next) (text ++ middle) := by
  rcases hnext with ⟨result, hresult⟩ | hnext
  · exact of_takes (h.bind hinner hresult)
  · refine .inr fun behind hend => ?_
    rw [List.append_assoc]
    exact .of_reads (h _ (hinner behind hend)) (hnext behind hend)

theorem bind_denied (h : Settled ends reader text)
    (hnext : ∀ value behind, ends behind → Refuses (next value) behind) :
    Denies ends (reader >>= next) text := by
  intro behind hend
  rcases h with ⟨value, htakes⟩ | hdenies
  · exact .of_reads (htakes behind hend) (hnext value behind hend)
  · exact .bind (hdenies behind hend)

theorem peek_bind {rest : Option Char → Reader α} (hc : text.head? = some c)
    (h : Settled ends (rest (some c)) text) : Settled ends (Reader.peek >>= rest) text := by
  have hsame : SameOn text (Reader.peek >>= rest) (rest (some c)) := by
    obtain ⟨text, rfl⟩ := List.head?_eq_some_iff.mp hc
    exact fun _ _ => rfl
  exact hsame.settled h

theorem next_bind {rest : Unit → Reader α} (h : Settled ends (rest ()) text) :
    Settled ends (Reader.next >>= rest) (c :: text) := by
  have htakes : Takes (fun _ => True) Reader.next [c] () := fun _ _ => Reader.reads_next
  exact bind_takes htakes (fun _ _ => trivial) h

theorem map {f : α → β} (h : Settled ends reader text) : Settled ends (f <$> reader) text := by
  have hbind : Settled ends (reader >>= fun a => Pure.pure (f a)) text :=
    bind_last h fun value => pure (f value)
  exact hbind

end Settled

/-! Space in front. -/

namespace SkipsSpace

theorem refuses (h : SkipsSpace reader) (hfront : Blank front) (hrefuses : Refuses reader text) :
    Refuses reader (front ++ text) := by
  intro offset
  rw [h front text offset hfront]
  exact hrefuses _

theorem takes (h : SkipsSpace reader) (hfront : Blank front) (htakes : Takes ends reader text value) :
    Takes ends reader (front ++ text) value :=
  fun behind hend => h.reads hfront (htakes behind hend)

theorem denies (h : SkipsSpace reader) (hfront : Blank front) (hdenies : Denies ends reader text) :
    Denies ends reader (front ++ text) := by
  intro behind hend
  rw [List.append_assoc]
  exact h.refuses hfront (hdenies behind hend)

theorem settled (h : SkipsSpace reader) (hfront : Blank front) (hsettled : Settled ends reader text) :
    Settled ends reader (front ++ text) := by
  rcases hsettled with ⟨value, htakes⟩ | hdenies
  · exact .inl ⟨value, h.takes hfront htakes⟩
  · exact .inr (h.denies hfront hdenies)

end SkipsSpace

/-- A text that is read up to space at its end has the value that was read. -/
theorem Reads.run_blank (h : Reads reader text value behind) (hbehind : Blank behind) :
    reader.run (text ++ behind) = .ok value := by
  obtain ⟨offset, hread⟩ := h 0
  have hspace : Reader.skipSpace ⟨behind, offset⟩ = .ok ((), ⟨[], offset + behind.length⟩) := by
    have hskip := SkipsSpace.skipSpace behind [] offset hbehind
    rwa [List.append_nil] at hskip
  have hwhole : reader.whole (Cursor.start (text ++ behind)) =
      .ok (value, ⟨[], offset + behind.length⟩) := by
    rw [Cursor.start, Reader.whole, bind_apply hread, bind_apply hspace]
    rfl
  rw [Reader.run, hwhole]

end AnimationKit.Json
