import AnimationKit.Proofs.Binary64.Order
import AnimationKit.Proofs.Export.Session

/-!
Copies of a panel's text. What the panel keeps of them is told from the replies that it gave: which
copy is open, and which outcome is to be shown.
-/
namespace AnimationKit.Panel

variable {panel : Panel} {copies after : Copies} {operation : Operation}
  {operations : List Operation} {settings : Settings} {config : Config} {id : UInt64}
  {result : CopyResult} {text : String} {time now later : Binary64}

/-- An operation and the reply to it. -/
structure Event where
  operation : Operation
  reply : Reply

variable {event : Event} {events : List Event}

def run (panel : Panel) (operations : List Operation) : Panel :=
  operations.foldl (fun panel operation => (panel.perform operation).state) panel

def eventOf (panel : Panel) (operation : Operation) : Event :=
  ⟨operation, (panel.perform operation).result⟩

/-- The operations with the replies to them. -/
def history (panel : Panel) : List Operation → List Event
  | [] => []
  | operation :: operations =>
    panel.eventOf operation :: history (panel.perform operation).state operations

theorem run_append_singleton :
    panel.run (operations ++ [operation]) = ((panel.run operations).perform operation).state := by
  simp [run, List.foldl_append]

theorem history_append_singleton : panel.history (operations ++ [operation]) =
    panel.history operations ++ [(panel.run operations).eventOf operation] := by
  induction operations generalizing panel with
  | nil => rfl
  | cons first operations ih => simp [history, ih, run]

theorem history_append {rest : List Operation} : panel.history (operations ++ rest) =
    panel.history operations ++ (panel.run operations).history rest := by
  induction operations generalizing panel with
  | nil => rfl
  | cons first operations ih =>
    simp only [List.cons_append, history, ih]
    rfl

/-! What a history says of copies. -/

namespace Event

/-- The copy that an event began. -/
def ticket? : Event → Option CopyTicket
  | ⟨_, .request (some ticket)⟩ => some ticket
  | _ => none

/-- The copy of which an event gave the outcome. -/
def finished? : Event → Option UInt64
  | ⟨.endCopy id _ _, .success true⟩ => some id
  | _ => none

end Event

def tickets (events : List Event) : List CopyTicket := events.filterMap Event.ticket?

def finishedIds (events : List Event) : List UInt64 := events.filterMap Event.finished?

/-- The newest copy, of which no outcome was taken yet. -/
def Open (events : List Event) (id : UInt64) : Prop :=
  (∃ ticket, (tickets events).getLast? = some ticket ∧ ticket.id = id) ∧ id ∉ finishedIds events

/-- The outcome that was taken last, unless it is a failure that was dismissed since. -/
def Outstanding (events : List Event) (result : CopyResult) (time : Binary64) : Prop :=
  ∃ before id since, events = before ++ ⟨.endCopy id result time, .success true⟩ :: since ∧
    finishedIds since = [] ∧
    (result ≠ .written → ∀ event ∈ since, event.operation ≠ .dismissFailure)

theorem tickets_append_singleton :
    tickets (events ++ [event]) = tickets events ++ event.ticket?.toList := by
  cases h : event.ticket? <;> simp [tickets, h]

theorem finishedIds_append_singleton :
    finishedIds (events ++ [event]) = finishedIds events ++ event.finished?.toList := by
  cases h : event.finished? <;> simp [finishedIds, h]

theorem length_history (panel : Panel) (operations : List Operation) :
    (panel.history operations).length = operations.length := by
  induction operations generalizing panel with
  | nil => rfl
  | cons first operations ih => simp [history, ih]

theorem length_tickets_le : (tickets (panel.history operations)).length ≤ operations.length := by
  rw [← length_history panel operations]
  exact List.length_filterMap_le _ _

theorem not_outstanding_nil : ¬ Outstanding [] result time := by
  rintro ⟨before, id, since, h, -⟩
  simp at h

/-- A new outcome takes the place of the one before. -/
theorem outstanding_append_finished {other : CopyResult} {at' : Binary64} :
    Outstanding (events ++ [⟨.endCopy id other at', .success true⟩]) result time ↔
      result = other ∧ time = at' := by
  constructor
  · rintro ⟨before, id', since, h, hsince, -⟩
    rcases List.eq_nil_or_concat since with rfl | ⟨since, event, rfl⟩
    · obtain ⟨-, he⟩ := List.append_inj' h rfl
      simp at he
      exact ⟨he.2.1.symm, he.2.2.symm⟩
    · rw [List.concat_eq_append] at h hsince
      rw [← List.cons_append, ← List.append_assoc] at h
      obtain ⟨-, he⟩ := List.append_inj' h rfl
      obtain rfl := (List.cons.inj he).1
      simp [finishedIds, Event.finished?] at hsince
  · rintro ⟨rfl, rfl⟩
    exact ⟨events, id, [], rfl, rfl, by simp⟩

/-- Without a new outcome, only a dismissal can take a failure away. -/
theorem outstanding_append_of_not_finished (h : event.finished? = none) :
    Outstanding (events ++ [event]) result time ↔
      Outstanding events result time ∧
        (result ≠ .written → event.operation ≠ .dismissFailure) := by
  constructor
  · rintro ⟨before, id, since, he, hsince, hkept⟩
    rcases List.eq_nil_or_concat since with rfl | ⟨since, last, rfl⟩
    · obtain ⟨-, he⟩ := List.append_inj' he rfl
      obtain rfl := (List.cons.inj he).1
      simp [Event.finished?] at h
    · rw [List.concat_eq_append] at he hsince hkept
      rw [← List.cons_append, ← List.append_assoc] at he
      obtain ⟨rfl, hlast⟩ := List.append_inj' he rfl
      obtain rfl := (List.cons.inj hlast).1
      rw [finishedIds_append_singleton, h] at hsince
      refine ⟨⟨before, id, since, rfl, by simpa using hsince, ?_⟩, ?_⟩
      · exact fun hr e hm => hkept hr e (List.mem_append_left _ hm)
      · exact fun hr => hkept hr _ (List.mem_append_right _ (List.mem_singleton_self _))
  · rintro ⟨⟨before, id, since, rfl, hsince, hkept⟩, hlast⟩
    refine ⟨before, id, since ++ [event], by simp, ?_, ?_⟩
    · rw [finishedIds_append_singleton, hsince, h]
      rfl
    · intro hr e hm
      rcases List.mem_append.mp hm with hm | hm
      · exact hkept hr e hm
      · rw [List.mem_singleton.mp hm]
        exact hlast hr

/-! What an operation does to the copies. -/

/-- The copies before and after an event. -/
inductive Advances : Copies → Event → Copies → Prop
  | began {copies : Copies} (text : String) :
      Advances copies ⟨.startCopy, .request (some ⟨copies.nextId, text⟩)⟩
        { copies with nextId := copies.nextId + 1, pending := some copies.nextId }
  | finished {copies : Copies} (id : UInt64) (result : CopyResult) (time : Binary64)
      (h : copies.pending = some id) :
      Advances copies ⟨.endCopy id result time, .success true⟩
        { copies with pending := none, last := some (result.feedback, time) }
  | dismissed {copies : Copies} : Advances copies ⟨.dismissFailure, .nothing⟩ copies.dismiss
  | other {copies : Copies} {event : Event} (hticket : event.ticket? = none)
      (hfinished : event.finished? = none) (hkept : event.operation ≠ .dismissFailure) :
      Advances copies event copies

theorem startCopy_eq : panel.perform .startCopy =
    match panel.exported with
    | .ok text => ⟨{ panel with copies := (panel.copies.start text).1 },
        .request (some ⟨panel.copies.nextId, text⟩), []⟩
    | .error _ => ⟨panel, .request none, []⟩ := by
  cases h : panel.exported <;> simp [perform, startCopy, text?, h, Outcome.map, Copies.start]

theorem endCopy_of_pending (h : panel.copies.pending = some id) :
    panel.perform (.endCopy id result time) =
      ⟨{ panel with copies :=
          { panel.copies with pending := none, last := some (result.feedback, time) } },
        .success true, result.notes.map .note⟩ := by
  simp [perform, endCopy, Copies.finish, h, Outcome.map]

theorem endCopy_of_not_pending (h : panel.copies.pending ≠ some id) :
    panel.perform (.endCopy id result time) =
      ⟨panel, .success false, [.note (.staleCopy id)]⟩ := by
  simp [perform, endCopy, Copies.finish, h, Outcome.map]

theorem copies_setFormat {format : ExportFormat} :
    (panel.setFormat format).state.copies = panel.copies := by
  by_cases hformat : format = panel.format
  · rw [setFormat_of_eq hformat]
  · rw [setFormat_of_ne hformat]
    rfl

theorem advances_perform (panel : Panel) (operation : Operation) :
    Advances panel.copies (panel.eventOf operation) (panel.perform operation).state.copies := by
  cases operation with
  | startCopy =>
    rw [eventOf, startCopy_eq]
    cases panel.exported with
    | ok text => exact .began text
    | error cause => exact .other rfl rfl (by simp)
  | endCopy id result time =>
    by_cases h : panel.copies.pending = some id
    · rw [eventOf, endCopy_of_pending h]
      exact .finished id result time h
    · rw [eventOf, endCopy_of_not_pending h]
      exact .other rfl rfl (by simp)
  | dismissFailure => exact .dismissed
  | setFormat format =>
    change Advances panel.copies _ (panel.setFormat format).state.copies
    rw [copies_setFormat]
    exact .other rfl rfl (by simp [eventOf])
  | _ => exact .other rfl rfl (by simp [eventOf])

/-! What a panel keeps, told by its history. -/

/-- The copies are those that a history tells of. -/
structure Tells (events : List Event) (copies : Copies) : Prop where
  nextId : copies.nextId = .ofNat (tickets events).length
  ids : (tickets events).map CopyTicket.id =
    (List.range (tickets events).length).map UInt64.ofNat
  begun : ∀ id ∈ finishedIds events, id ∈ (tickets events).map CopyTicket.id
  pending : ∀ id, copies.pending = some id ↔ Open events id
  last : ∀ feedback time, copies.last = some (feedback, time) ↔
    ∃ result : CopyResult, result.feedback = feedback ∧ Outstanding events result time

theorem tells_nil : Tells [] {} := by
  refine ⟨rfl, rfl, by simp [finishedIds], by simp [Open, tickets], ?_⟩
  intro feedback time
  simp [not_outstanding_nil]

/-- Numbers are not used again before they run out. -/
theorem not_finished_of_new (h : Tells events copies) (hfew : (tickets events).length < 2 ^ 64) :
    copies.nextId ∉ finishedIds events := by
  intro hmem
  have hbegun := h.begun _ hmem
  rw [h.ids, h.nextId] at hbegun
  obtain ⟨i, hi, he⟩ := List.mem_map.mp hbegun
  rw [List.mem_range] at hi
  have hnat := congrArg UInt64.toNat he
  rw [UInt64.toNat_ofNat_of_lt' (hi.trans hfew), UInt64.toNat_ofNat_of_lt' hfew] at hnat
  omega

theorem open_of_new (h : Tells events copies) (hfew : (tickets events).length < 2 ^ 64)
    (hticket : event.ticket? = some ⟨copies.nextId, text⟩) (hfinished : event.finished? = none) :
    Open (events ++ [event]) id ↔ copies.nextId = id := by
  simp only [Open, tickets_append_singleton, finishedIds_append_singleton, hticket, hfinished,
    Option.toList_some, Option.toList_none, List.append_nil, List.getLast?_concat,
    Option.some.injEq]
  constructor
  · rintro ⟨⟨ticket, rfl, rfl⟩, -⟩
    rfl
  · rintro rfl
    exact ⟨⟨_, rfl, rfl⟩, not_finished_of_new h hfew⟩

theorem open_of_other (hticket : event.ticket? = none) (hfinished : event.finished? = none) :
    Open (events ++ [event]) id ↔ Open events id := by
  simp only [Open, tickets_append_singleton, finishedIds_append_singleton, hticket, hfinished,
    Option.toList_none, List.append_nil]

/-- Nothing is open once the newest copy is finished. -/
theorem not_open_of_finished {finished : UInt64} (hopen : Open events finished)
    (hticket : event.ticket? = none) (hfinished : event.finished? = some finished) :
    ¬ Open (events ++ [event]) id := by
  obtain ⟨⟨ticket, hlast, rfl⟩, -⟩ := hopen
  rintro ⟨⟨other, hother, rfl⟩, hnot⟩
  rw [tickets_append_singleton, hticket, Option.toList_none, List.append_nil, hlast,
    Option.some.injEq] at hother
  subst hother
  rw [finishedIds_append_singleton, hfinished] at hnot
  exact hnot (List.mem_append_right _ (List.mem_singleton_self _))

theorem mem_ids_of_open (h : Open events id) : id ∈ (tickets events).map CopyTicket.id := by
  obtain ⟨⟨ticket, hlast, rfl⟩, -⟩ := h
  exact List.mem_map_of_mem (List.mem_of_getLast? hlast)

theorem ne_written_iff : result ≠ .written ↔ ∃ message, result.feedback = .failed message := by
  cases result <;> simp [CopyResult.feedback]

theorem dismiss_eq : copies.dismiss = { copies with last := copies.dismiss.last } := by
  unfold Copies.dismiss
  split <;> rfl

/-- A dismissal hides a failure and nothing else. -/
theorem dismiss_last {feedback : CopyFeedback} : copies.dismiss.last = some (feedback, time) ↔
    copies.last = some (feedback, time) ∧ ¬ ∃ message, feedback = .failed message := by
  unfold Copies.dismiss
  split
  · rename_i hlast
    rw [hlast]
    constructor
    · intro h
      cases h
    · rintro ⟨h, hnot⟩
      cases h
      exact (hnot ⟨_, rfl⟩).elim
  · rename_i hnot
    constructor
    · intro h
      refine ⟨h, ?_⟩
      rintro ⟨message, rfl⟩
      exact hnot message time h
    · exact And.left

theorem tells_began (h : Tells events copies) (hfew : (tickets events).length + 1 < 2 ^ 64)
    (hticket : event.ticket? = some ⟨copies.nextId, text⟩) (hfinished : event.finished? = none)
    (hkept : event.operation ≠ .dismissFailure) :
    Tells (events ++ [event])
      { copies with nextId := copies.nextId + 1, pending := some copies.nextId } := by
  have htickets : tickets (events ++ [event]) = tickets events ++ [⟨copies.nextId, text⟩] := by
    rw [tickets_append_singleton, hticket, Option.toList_some]
  have hids : finishedIds (events ++ [event]) = finishedIds events := by
    rw [finishedIds_append_singleton, hfinished, Option.toList_none, List.append_nil]
  refine ⟨?_, ?_, ?_, ?_, ?_⟩
  · simp [htickets, h.nextId]
  · simp [htickets, h.nextId, h.ids, List.range_succ]
  · intro id hid
    rw [hids] at hid
    rw [htickets, List.map_append]
    exact List.mem_append_left _ (h.begun id hid)
  · intro id
    rw [open_of_new h (by omega) hticket hfinished, Option.some.injEq]
  · intro feedback time
    simp only [outstanding_append_of_not_finished hfinished, h.last, hkept, ne_eq,
      not_false_eq_true, implies_true, and_true]

theorem tells_finished (h : Tells events copies) (hpending : copies.pending = some id)
    (result : CopyResult) (time : Binary64) :
    Tells (events ++ [⟨.endCopy id result time, .success true⟩])
      { copies with pending := none, last := some (result.feedback, time) } := by
  have hopen := (h.pending id).mp hpending
  have htickets : tickets (events ++ [⟨.endCopy id result time, .success true⟩]) =
      tickets events := by
    rw [tickets_append_singleton]
    exact List.append_nil _
  refine ⟨?_, ?_, ?_, ?_, ?_⟩
  · rw [htickets]
    exact h.nextId
  · rw [htickets]
    exact h.ids
  · intro other hother
    rw [htickets]
    rw [finishedIds_append_singleton] at hother
    rcases List.mem_append.mp hother with hother | hother
    · exact h.begun other hother
    · obtain rfl := List.mem_singleton.mp hother
      exact mem_ids_of_open hopen
  · intro other
    have hnot : ¬ Open (events ++ [⟨.endCopy id result time, .success true⟩]) other :=
      not_open_of_finished hopen rfl rfl
    simp [hnot]
  · intro feedback at'
    simp only [outstanding_append_finished, Option.some.injEq, Prod.mk.injEq]
    constructor
    · rintro ⟨rfl, rfl⟩
      exact ⟨result, rfl, rfl, rfl⟩
    · rintro ⟨_, rfl, rfl, rfl⟩
      exact ⟨rfl, rfl⟩

/-- An event that begins and finishes no copy can only hide an outcome. -/
theorem tells_quiet {last : Option (CopyFeedback × Binary64)} (h : Tells events copies)
    (hticket : event.ticket? = none) (hfinished : event.finished? = none)
    (hlast : ∀ feedback time, last = some (feedback, time) ↔
      copies.last = some (feedback, time) ∧
        ((∃ message, feedback = .failed message) → event.operation ≠ .dismissFailure)) :
    Tells (events ++ [event]) { copies with last } := by
  have htickets : tickets (events ++ [event]) = tickets events := by
    rw [tickets_append_singleton, hticket, Option.toList_none, List.append_nil]
  have hids : finishedIds (events ++ [event]) = finishedIds events := by
    rw [finishedIds_append_singleton, hfinished, Option.toList_none, List.append_nil]
  refine ⟨?_, ?_, ?_, ?_, ?_⟩
  · rw [htickets]
    exact h.nextId
  · rw [htickets]
    exact h.ids
  · rw [htickets, hids]
    exact h.begun
  · intro id
    rw [open_of_other hticket hfinished]
    exact h.pending id
  · intro feedback time
    rw [hlast, h.last]
    simp only [outstanding_append_of_not_finished hfinished, ne_written_iff]
    constructor
    · rintro ⟨⟨result, rfl, houtstanding⟩, hkept⟩
      exact ⟨result, rfl, houtstanding, hkept⟩
    · rintro ⟨result, rfl, houtstanding, hkept⟩
      exact ⟨⟨result, rfl, houtstanding⟩, hkept⟩

theorem tells_step (h : Tells events copies) (hstep : Advances copies event after)
    (hfew : (tickets (events ++ [event])).length < 2 ^ 64) : Tells (events ++ [event]) after := by
  cases hstep with
  | began text =>
    rw [tickets_append_singleton, List.length_append] at hfew
    exact tells_began h hfew rfl rfl (by simp)
  | finished id result time hpending => exact tells_finished h hpending result time
  | dismissed =>
    rw [dismiss_eq]
    refine tells_quiet h rfl rfl fun feedback time => ?_
    rw [dismiss_last]
    simp
  | other hticket hfinished hkept =>
    exact tells_quiet h hticket hfinished (by simp [hkept])

theorem tells_run (settings : Settings) (config : Config)
    (hfew : (tickets ((create settings config).1.history operations)).length < 2 ^ 64) :
    Tells ((create settings config).1.history operations)
      ((create settings config).1.run operations).copies := by
  induction operations using List.reverseRecOn with
  | nil => exact tells_nil
  | append_singleton operations operation ih =>
    rw [history_append_singleton] at hfew ⊢
    rw [run_append_singleton]
    have hbefore : (tickets ((create settings config).1.history operations)).length < 2 ^ 64 := by
      rw [tickets_append_singleton, List.length_append] at hfew
      omega
    exact tells_step (ih hbefore) (advances_perform _ _) hfew

/-! Feedback fades. -/

theorem idle_of_le {shownFor : Binary64} (hle : now.le later = true)
    (hidle : copies.feedback shownFor now = .idle) : copies.feedback shownFor later = .idle := by
  unfold Copies.feedback at hidle ⊢
  split
  · rename_i feedback time hlast
    rw [hlast] at hidle
    dsimp only at hidle
    split
    · rename_i hlater
      rwa [if_pos (Binary64.lt_sub_of_le hle hlater)] at hidle
    · rfl
  · rfl

theorem last_of_not_finished (h : Advances copies event after) (hfinished : event.finished? = none) :
    after.last = copies.last ∨ after.last = none := by
  cases h with
  | began text => exact Or.inl rfl
  | finished id result time hpending => simp [Event.finished?] at hfinished
  | dismissed =>
    unfold Copies.dismiss
    split
    · exact Or.inr rfl
    · exact Or.inl rfl
  | other hticket hfinished hkept => exact Or.inl rfl

theorem last_run (hquiet : finishedIds (panel.history operations) = []) :
    (panel.run operations).copies.last = panel.copies.last ∨
      (panel.run operations).copies.last = none := by
  induction operations using List.reverseRecOn with
  | nil => exact Or.inl rfl
  | append_singleton operations operation ih =>
    rw [history_append_singleton, finishedIds_append_singleton, List.append_eq_nil_iff] at hquiet
    rw [run_append_singleton]
    have hfinished : ((panel.run operations).eventOf operation).finished? = none := by
      simpa using hquiet.2
    rcases last_of_not_finished (advances_perform _ operation) hfinished with h | h
    · rw [h]
      exact ih hquiet.1
    · exact Or.inr h

theorem settings_run : (panel.run operations).settings = panel.settings := by
  induction operations using List.reverseRecOn with
  | nil => rfl
  | append_singleton operations operation ih =>
    rw [run_append_singleton, (leads_perform _ operation).settings, ih]

theorem idle_run (hquiet : finishedIds (panel.history operations) = [])
    (hle : now.le later = true) (hidle : panel.copyFeedback now = .idle) :
    (panel.run operations).copyFeedback later = .idle := by
  have hlater : panel.copyFeedback later = .idle := idle_of_le hle hidle
  unfold copyFeedback Copies.feedback at hlater ⊢
  rw [settings_run]
  rcases last_run hquiet with h | h
  · rw [h]
    exact hlater
  · rw [h]

/-! What is promised of copies. -/

/-- What holds of a panel after some operations and of the events up to then. -/
structure Safe (start : Panel) (operations : List Operation) : Prop where
  ascending : (tickets (start.history operations)).Pairwise fun ticket later =>
    ticket.id < later.id
  /-- Each request has the text of its moment, and there is one whenever there is a text. -/
  begun : ∀ before rest, operations = before ++ .startCopy :: rest →
    ∃ reply, (start.history operations)[before.length]? = some ⟨.startCopy, .request reply⟩ ∧
      ∀ ticket, reply = some ticket ↔ (start.run before).exported = .ok ticket.text ∧
        ticket.id = .ofNat (tickets (start.history before)).length
  accepted_iff : ∀ id result now,
    ((start.run operations).perform (.endCopy id result now)).result = .success true ↔
      Open (start.history operations) id
  refused_iff : ∀ id result now,
    ((start.run operations).perform (.endCopy id result now)).result = .success false ↔
      ¬ Open (start.history operations) id
  refused : ∀ id result now,
    ((start.run operations).perform (.endCopy id result now)).result = .success false →
      ((start.run operations).perform (.endCopy id result now)).state = start.run operations
  pending_iff : (start.run operations).copies.pending.isSome = true ↔
    ∃ id, Open (start.history operations) id
  shown : ∀ result time, Outstanding (start.history operations) result time → ∀ now,
    (start.run operations).copyFeedback now =
      if (now.sub time).lt start.settings.feedbackTime then result.feedback else .idle
  hidden : (∀ result time, ¬ Outstanding (start.history operations) result time) → ∀ now,
    (start.run operations).copyFeedback now = .idle
  idle : ∀ more now later, finishedIds ((start.run operations).history more) = [] →
    now.le later = true → (start.run operations).copyFeedback now = .idle →
      ((start.run operations).run more).copyFeedback later = .idle

theorem ascending_of_tells (h : Tells events copies) (hfew : (tickets events).length < 2 ^ 64) :
    (tickets events).Pairwise fun ticket later => ticket.id < later.id := by
  rw [← List.pairwise_map (f := CopyTicket.id) (R := (· < ·)), h.ids, List.pairwise_map]
  refine List.pairwise_lt_range.imp_of_mem ?_
  intro i j hi hj hij
  rw [List.mem_range] at hi hj
  rw [UInt64.lt_iff_toNat_lt, UInt64.toNat_ofNat_of_lt' (hi.trans hfew),
    UInt64.toNat_ofNat_of_lt' (hj.trans hfew)]
  exact hij

theorem begun_of_tells (h : Tells events panel.copies) :
    ∃ reply, panel.eventOf .startCopy = ⟨.startCopy, .request reply⟩ ∧
      ∀ ticket, reply = some ticket ↔ panel.exported = .ok ticket.text ∧
        ticket.id = .ofNat (tickets events).length := by
  rw [eventOf, startCopy_eq, ← h.nextId]
  cases hexported : panel.exported with
  | error cause => exact ⟨none, rfl, by simp⟩
  | ok text =>
    refine ⟨_, rfl, ?_⟩
    rintro ⟨id, other⟩
    simp only [Option.some.injEq, CopyTicket.mk.injEq, Except.ok.injEq]
    constructor
    · rintro ⟨rfl, rfl⟩
      exact ⟨rfl, rfl⟩
    · rintro ⟨rfl, rfl⟩
      exact ⟨rfl, rfl⟩

theorem accepted_iff_of_tells (h : Tells events panel.copies) :
    ((panel.perform (.endCopy id result now)).result = .success true ↔ Open events id) ∧
      ((panel.perform (.endCopy id result now)).result = .success false ↔ ¬ Open events id) := by
  rw [← h.pending]
  by_cases hpending : panel.copies.pending = some id
  · rw [endCopy_of_pending hpending]
    simp [hpending]
  · rw [endCopy_of_not_pending hpending]
    simp [hpending]

theorem feedback_of_tells (h : Tells events panel.copies)
    (houtstanding : Outstanding events result time) (now : Binary64) :
    panel.copyFeedback now =
      if (now.sub time).lt panel.settings.feedbackTime then result.feedback else .idle := by
  have hlast := (h.last result.feedback time).mpr ⟨result, rfl, houtstanding⟩
  simp only [copyFeedback, Copies.feedback, hlast]

theorem idle_of_tells (h : Tells events panel.copies)
    (hnone : ∀ result time, ¬ Outstanding events result time) (now : Binary64) :
    panel.copyFeedback now = .idle := by
  cases hlast : panel.copies.last with
  | none => simp only [copyFeedback, Copies.feedback, hlast]
  | some last =>
    obtain ⟨result, -, houtstanding⟩ := (h.last last.1 last.2).mp hlast
    exact (hnone result last.2 houtstanding).elim

/-- Only the outcome of the newest copy is taken, once, and it is shown until its time is over. -/
theorem safe_run (settings : Settings) (config : Config) (operations : List Operation)
    (hfew : (tickets ((create settings config).1.history operations)).length < 2 ^ 64) :
    (create settings config).1.Safe operations := by
  have htells := tells_run settings config hfew
  have hsettings : ((create settings config).1.run operations).settings = settings := settings_run
  refine ⟨ascending_of_tells htells hfew, ?_, fun id result now => (accepted_iff_of_tells htells).1,
    fun id result now => (accepted_iff_of_tells htells).2, ?_, ?_, ?_, idle_of_tells htells,
    fun more now later => idle_run⟩
  · rintro before rest rfl
    have hbefore : (tickets ((create settings config).1.history before)).length < 2 ^ 64 := by
      rw [history_append, tickets, List.filterMap_append, List.length_append] at hfew
      exact Nat.lt_of_le_of_lt (Nat.le_add_right _ _) hfew
    obtain ⟨reply, hevent, hreply⟩ := begun_of_tells (tells_run settings config hbefore)
    refine ⟨reply, ?_, hreply⟩
    rw [history_append, ← length_history (create settings config).1, history, hevent]
    simp
  · intro id result now hrefused
    have hnot : ((create settings config).1.run operations).copies.pending ≠ some id := by
      rw [ne_eq, htells.pending]
      exact (accepted_iff_of_tells htells).2.mp hrefused
    rw [endCopy_of_not_pending hnot]
  · rw [Option.isSome_iff_exists]
    exact exists_congr htells.pending
  · intro result time houtstanding now
    rw [feedback_of_tells htells houtstanding, hsettings]
    rfl

/-- Two copies of which the first is given up. Its outcome comes late, that of the second twice, and
an outcome comes for a copy that was never begun. -/
def givenUpCopy : List Operation :=
  [.startCopy, .setFormat .css, .startCopy, .endCopy 0 (.failed "late") (.ofNat 5),
    .endCopy 1 (.failed "denied") (.ofNat 6), .endCopy 1 .written (.ofNat 7), .dismissFailure,
    .endCopy 9 .written (.ofNat 8), .setConfig { kind := .unsupported "spin", duration := .ofNat 1 },
    .startCopy]

theorem safe_run_givenUpCopy :
    (tickets ((create {} Config.default).1.history givenUpCopy)).length < 2 ^ 64 ∧
      (create {} Config.default).1.Safe givenUpCopy := by
  have hfew : (tickets ((create {} Config.default).1.history givenUpCopy)).length < 2 ^ 64 :=
    Nat.lt_of_le_of_lt length_tickets_le (by decide)
  exact ⟨hfew, safe_run {} Config.default givenUpCopy hfew⟩

end AnimationKit.Panel
