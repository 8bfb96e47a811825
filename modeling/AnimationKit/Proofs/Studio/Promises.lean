import AnimationKit.Proofs.Studio.Refinement

/-!
Copies whose outcome comes later. A host may begin copies, settle their promises in any order and
go on with the studio in between. What the studio tells of its copies follows from the events up to
now.
-/
namespace AnimationKit.Studio

variable {studio start : Studio} {step : Step} {steps : List Step} {copies : Copies}
  {promises : List (Option UInt64)} {promise number : Nat} {id : UInt64} {writer : Writer}
  {settlement : Settlement} {result : CopyResult} {time : Binary64} {text : String}

/-- A step and the reply to it. -/
structure Event extends Step where
  reply : Reply

variable {event : Event}

def eventOf (studio : Studio) (step : Step) : Event :=
  ⟨step, (studio.perform step.time step.operation).result⟩

def history (studio : Studio) : List Step → List Event
  | [] => []
  | step :: steps =>
    studio.eventOf step :: history (studio.perform step.time step.operation).state steps

/-- The events of some steps, the newest first. -/
def past (studio : Studio) (steps : List Step) : List Event := (studio.history steps).reverse

theorem run_append_singleton : studio.run (steps ++ [step]) =
    ((studio.run steps).perform step.time step.operation).state := by
  simp [run]

theorem past_append_singleton :
    studio.past (steps ++ [step]) = (studio.run steps).eventOf step :: studio.past steps := by
  have hhistory : studio.history (steps ++ [step]) =
      studio.history steps ++ [(studio.run steps).eventOf step] := by
    induction steps generalizing studio with
    | nil => rfl
    | cons first steps ih => simp [history, ih, run]
  rw [past, hhistory, List.reverse_append]
  rfl

variable {past : List Event}

/-! What the events say of copies. Copies and promises are numbered in the order of their beginning,
from zero. -/

/-- The writer of the copy that an event began. -/
def Event.writer? : Event → Option Writer
  | ⟨⟨_, .copy writer⟩, .written _⟩ => some writer
  | _ => none

/-- How many copies were begun. -/
def started (past : List Event) : Nat := (past.filterMap Event.writer?).length

/-- How many of their writers answered with a promise. -/
def promised (past : List Event) : Nat :=
  ((past.filterMap Event.writer?).filter fun writer => writer.result?.isNone).length

/-- The promise is that of the copy of this number, and it was not settled yet. -/
inductive Awaited (promise number : Nat) : List Event → Prop
  | made {event : Event} {past : List Event} {writer : Writer}
      (hwriter : event.writer? = some writer) (hresult : writer.result? = none)
      (hpromise : promised past = promise) (hnumber : started past = number) :
      Awaited promise number (event :: past)
  | kept {event : Event} {past : List Event} (h : Awaited promise number past)
      (hopen : ∀ settlement, event.operation ≠ .settle promise settlement) :
      Awaited promise number (event :: past)

/-- The event gives the outcome of the newest copy. -/
inductive Ends (past : List Event) (event : Event) (result : CopyResult) : Prop
  | atOnce {writer : Writer} (hwriter : event.writer? = some writer)
      (hresult : writer.result? = some result)
  | settled {promise number : Nat} {settlement : Settlement}
      (hsettle : event.operation = .settle promise settlement)
      (hawaited : Awaited promise number past) (hnewest : started past = number + 1)
      (hresult : settlement.copyResult = result)

/-- The last outcome, unless it is a failure that was dismissed since. -/
inductive Stands : List Event → CopyResult → Binary64 → Prop
  | recorded {event : Event} {past : List Event} {result : CopyResult}
      (h : Ends past event result) : Stands (event :: past) result event.time
  | kept {event : Event} {past : List Event} {result : CopyResult} {time : Binary64}
      (h : Stands past result time) (hnone : ∀ other, ¬ Ends past event other)
      (hkept : event.operation = .dismissFailure → result = .written) :
      Stands (event :: past) result time

theorem started_cons : started (event :: past) =
    started past + if event.writer?.isSome then 1 else 0 := by
  cases h : event.writer? <;> simp [started, h]

theorem promised_cons : promised (event :: past) =
    promised past + if event.writer?.any fun writer => writer.result?.isNone then 1 else 0 := by
  cases h : event.writer? with
  | none => simp [promised, h]
  | some writer => cases hresult : writer.result? <;> simp [promised, h, hresult]

theorem awaited_lt (h : Awaited promise number past) :
    number < started past ∧ promise < promised past := by
  induction h with
  | made hwriter hresult hpromise hnumber =>
    simp [started_cons, promised_cons, hwriter, hresult]
    omega
  | kept _ _ ih =>
    rw [started_cons, promised_cons]
    omega

/-- A promise is that of one copy, and a copy has one promise. -/
theorem awaited_unique {promise' number' : Nat} (h : Awaited promise number past)
    (h' : Awaited promise' number' past) : promise = promise' ↔ number = number' := by
  induction h with
  | made _ _ hpromise hnumber =>
    -- A new promise has numbers that no earlier one has.
    cases h' with
    | made _ _ hpromise' hnumber' => omega
    | kept h' _ =>
      have hlt := awaited_lt h'
      omega
  | kept h _ ih =>
    cases h' with
    | made _ _ hpromise' hnumber' =>
      have hlt := awaited_lt h
      omega
    | kept h' _ => exact ih h'

theorem awaited_cons : Awaited promise number (event :: past) ↔
    (∃ writer, event.writer? = some writer ∧ writer.result? = none ∧ promised past = promise ∧
      started past = number) ∨
    Awaited promise number past ∧ ∀ settlement, event.operation ≠ .settle promise settlement := by
  constructor
  · rintro (⟨hwriter, hresult, hpromise, hnumber⟩ | ⟨h, hopen⟩)
    · exact Or.inl ⟨_, hwriter, hresult, hpromise, hnumber⟩
    · exact Or.inr ⟨h, hopen⟩
  · rintro (⟨writer, hwriter, hresult, hpromise, hnumber⟩ | ⟨h, hopen⟩)
    · exact .made hwriter hresult hpromise hnumber
    · exact .kept h hopen

theorem stands_cons : Stands (event :: past) result time ↔
    Ends past event result ∧ event.time = time ∨
    Stands past result time ∧ (∀ other, ¬ Ends past event other) ∧
      (event.operation = .dismissFailure → result = .written) := by
  constructor
  · rintro (h | ⟨h, hnone, hkept⟩)
    · exact Or.inl ⟨h, rfl⟩
    · exact Or.inr ⟨h, hnone, hkept⟩
  · rintro (⟨h, rfl⟩ | ⟨h, hnone, hkept⟩)
    · exact .recorded h
    · exact .kept h hnone hkept

/-! Copies and settlements. -/

theorem writer?_copy : Event.writer? ⟨⟨time, .copy writer⟩, .written text⟩ = some writer := rfl

theorem writer?_settle :
    Event.writer? ⟨⟨time, .settle promise settlement⟩, .nothing⟩ = none := rfl

theorem awaited_copy : Awaited promise number (⟨⟨time, .copy writer⟩, .written text⟩ :: past) ↔
    writer.result? = none ∧ promised past = promise ∧ started past = number ∨
    Awaited promise number past := by
  simp [awaited_cons, writer?_copy]

/-- A promise that is settled is not awaited any more, and no other promise is touched. -/
theorem awaited_settle {other : Nat} :
    Awaited other number (⟨⟨time, .settle promise settlement⟩, .nothing⟩ :: past) ↔
      Awaited other number past ∧ promise ≠ other := by
  simp [awaited_cons, writer?_settle]

theorem ends_copy : Ends past ⟨⟨time, .copy writer⟩, .written text⟩ result ↔
    writer.result? = some result := by
  constructor
  · rintro (⟨⟨⟩, hresult⟩ | ⟨⟨⟩, -, -, -⟩)
    exact hresult
  · exact .atOnce writer?_copy

theorem ends_settle : Ends past ⟨⟨time, .settle promise settlement⟩, .nothing⟩ result ↔
    (∃ number, Awaited promise number past ∧ started past = number + 1) ∧
      settlement.copyResult = result := by
  constructor
  · rintro (⟨⟨⟩, -⟩ | ⟨⟨⟩, hawaited, hnewest, hresult⟩)
    exact ⟨⟨_, hawaited, hnewest⟩, hresult⟩
  · rintro ⟨⟨number, hawaited, hnewest⟩, hresult⟩
    exact .settled rfl hawaited hnewest hresult

/-! What a step does to the copies and the promises. -/

/-- The copies and the promises before and after an event. -/
inductive Advances (copies : Copies) (promises : List (Option UInt64)) :
    Event → Copies → List (Option UInt64) → Prop
  | ended {writer : Writer} {result : CopyResult} (time : Binary64) (text : String)
      (hresult : writer.result? = some result) :
      Advances copies promises ⟨⟨time, .copy writer⟩, .written text⟩
        ⟨copies.nextId + 1, none, some (result.feedback, time)⟩ promises
  | promised {writer : Writer} (time : Binary64) (text : String)
      (hresult : writer.result? = none) :
      Advances copies promises ⟨⟨time, .copy writer⟩, .written text⟩
        { copies with nextId := copies.nextId + 1, pending := some copies.nextId }
        (promises ++ [some copies.nextId])
  | newest {promise : Nat} {id : UInt64} (time : Binary64) (settlement : Settlement)
      (hpromise : promises[promise]? = some (some id)) (hpending : copies.pending = some id) :
      Advances copies promises ⟨⟨time, .settle promise settlement⟩, .nothing⟩
        { copies with pending := none, last := some (settlement.copyResult.feedback, time) }
        (promises.set promise none)
  | late {promise : Nat} {id : UInt64} (time : Binary64) (settlement : Settlement)
      (hpromise : promises[promise]? = some (some id)) (hpending : copies.pending ≠ some id) :
      Advances copies promises ⟨⟨time, .settle promise settlement⟩, .nothing⟩
        copies (promises.set promise none)
  | dismissed (time : Binary64) :
      Advances copies promises ⟨⟨time, .dismissFailure⟩, .nothing⟩ copies.dismiss promises
  | other {event : Event} (hwriter : event.writer? = none)
      (hsettle : ∀ promise settlement, event.operation = .settle promise settlement →
        ∀ id, promises[promise]? ≠ some (some id))
      (hkept : event.operation ≠ .dismissFailure) :
      Advances copies promises event copies promises

theorem settle_of_dead (h : ∀ id, studio.promises[promise]? ≠ some (some id)) :
    studio.settle promise settlement time = ⟨studio, (), []⟩ := by
  unfold settle
  split
  · rename_i id hpromise
    exact (h id hpromise).elim
  · rfl

theorem settle_of_pending (h : studio.promises[promise]? = some (some id))
    (hpending : studio.panel.copies.pending = some id) :
    studio.settle promise settlement time =
      ⟨⟨{ studio.panel with copies := { studio.panel.copies with
            pending := none, last := some (settlement.copyResult.feedback, time) } },
          studio.promises.set promise none⟩,
        (), settlement.copyResult.notes.map .note⟩ := by
  simp [settle, h, endCopy, onPanel, Panel.endCopy, Copies.finish, hpending]

theorem settle_of_not_pending (h : studio.promises[promise]? = some (some id))
    (hpending : studio.panel.copies.pending ≠ some id) :
    studio.settle promise settlement time =
      ⟨{ studio with promises := studio.promises.set promise none }, (),
        [.note (.staleCopy id)]⟩ := by
  simp [settle, h, endCopy, onPanel, Panel.endCopy, Copies.finish, hpending]

/-- A call that is not about copies leaves them alone, and the promises too. -/
theorem Obeys.keeps_copies {α β : Type} {outcome : Outcome Studio (Answer β)} {denotes : α → Prop}
    {operation : α → Outcome Panel β} (h : studio.Obeys outcome denotes operation)
    (hcopies : ∀ argument, (operation argument).state.copies = studio.panel.copies) :
    outcome.state.panel.copies = studio.panel.copies ∧
      outcome.state.promises = studio.promises := by
  by_cases hdenotes : ∃ argument, denotes argument
  · obtain ⟨argument, hargument⟩ := hdenotes
    rw [h.accepted argument hargument]
    exact ⟨hcopies argument, rfl⟩
  · obtain ⟨message, hrefused⟩ := h.refused (not_exists.mp hdenotes)
    rw [hrefused]
    exact ⟨rfl, rfl⟩

theorem advances_of_eq {after : Copies} {promises' : List (Option UInt64)}
    (h : after = copies ∧ promises' = promises) (hwriter : event.writer? = none)
    (hsettle : ∀ promise settlement, event.operation ≠ .settle promise settlement)
    (hkept : event.operation ≠ .dismissFailure) :
    Advances copies promises event after promises' := by
  obtain ⟨rfl, rfl⟩ := h
  exact .other hwriter (fun promise settlement he => (hsettle promise settlement he).elim) hkept

theorem advances_copy (studio : Studio) (writer : Writer) (time : Binary64) :
    Advances studio.panel.copies studio.promises
      ⟨⟨time, .copy writer⟩, .ofAnswer .written (studio.copy writer time).result⟩
      (studio.copy writer time).state.panel.copies (studio.copy writer time).state.promises := by
  cases hexported : studio.panel.exported with
  | error cause =>
    rw [copy_of_error hexported]
    exact advances_of_eq ⟨rfl, rfl⟩ rfl (by simp) (by simp)
  | ok text =>
    cases hresult : writer.result? with
    | none =>
      rw [copy_of_none hexported hresult]
      exact .promised time text hresult
    | some result =>
      rw [copy_of_some hexported hresult]
      exact .ended time text hresult

theorem advances_settle (studio : Studio) (promise : Nat) (settlement : Settlement)
    (time : Binary64) :
    Advances studio.panel.copies studio.promises ⟨⟨time, .settle promise settlement⟩, .nothing⟩
      (studio.settle promise settlement time).state.panel.copies
      (studio.settle promise settlement time).state.promises := by
  by_cases hpromise : ∃ id, studio.promises[promise]? = some (some id)
  · obtain ⟨id, hpromise⟩ := hpromise
    by_cases hpending : studio.panel.copies.pending = some id
    · rw [settle_of_pending hpromise hpending]
      exact .newest time settlement hpromise hpending
    · rw [settle_of_not_pending hpromise hpending]
      exact .late time settlement hpromise hpending
  · have hdead := not_exists.mp hpromise
    rw [settle_of_dead hdead]
    refine .other rfl ?_ (by simp)
    rintro _ _ ⟨⟩
    exact hdead

theorem advances_perform (studio : Studio) (step : Step) :
    Advances studio.panel.copies studio.promises (studio.eventOf step)
      (studio.perform step.time step.operation).state.panel.copies
      (studio.perform step.time step.operation).state.promises := by
  obtain ⟨time, operation⟩ := step
  cases operation with
  | copy writer => exact advances_copy studio writer time
  | settle promise settlement => exact advances_settle studio promise settlement time
  | dismissFailure => exact .dismissed time
  | bind value target =>
    exact advances_of_eq ((obeys_bind studio value target).keeps_copies fun _ => rfl) rfl
      (by simp [eventOf]) (by simp [eventOf])
  | setConfig value =>
    exact advances_of_eq ((obeys_setConfig studio value).keeps_copies fun _ => rfl) rfl
      (by simp [eventOf]) (by simp [eventOf])
  | setFormat name =>
    have hobeys := obeys_setFormat studio name
    exact advances_of_eq (hobeys.keeps_copies fun _ => Panel.copies_setFormat) rfl
      (by simp [eventOf]) (by simp [eventOf])
  | _ => exact advances_of_eq ⟨rfl, rfl⟩ rfl (by simp [eventOf]) (by simp [eventOf])

/-! What a studio keeps, told by the events. -/

/-- The copies and the promises are those that the events tell of. -/
structure Told (past : List Event) (copies : Copies) (promises : List (Option UInt64)) :
    Prop where
  nextId : copies.nextId = .ofNat (started past)
  length : promises.length = promised past
  awaited : ∀ promise id, promises[promise]? = some (some id) ↔
    ∃ number, Awaited promise number past ∧ id = .ofNat number
  /-- Only the newest copy is open, and only while its promise is awaited. -/
  pending : ∀ id, copies.pending = some id ↔
    ∃ promise number, Awaited promise number past ∧ started past = number + 1 ∧ id = .ofNat number
  last : ∀ feedback time, copies.last = some (feedback, time) ↔
    ∃ result : CopyResult, result.feedback = feedback ∧ Stands past result time

theorem not_awaited_nil : ¬ Awaited promise number [] := by
  rintro ⟨⟩

theorem not_stands_nil : ¬ Stands [] result time := by
  rintro ⟨⟩

theorem told_nil : Told [] {} [] := by
  refine ⟨rfl, rfl, ?_, ?_, ?_⟩
  · simp [not_awaited_nil]
  · simp [not_awaited_nil]
  · simp [not_stands_nil]

/-- Numbers are told apart before they run out. -/
theorem number_eq {other : Nat} (hfew : started past < 2 ^ 64) (h : Awaited promise number past)
    {promise' : Nat} (hother : Awaited promise' other past)
    (hid : UInt64.ofNat number = UInt64.ofNat other) : number = other := by
  have hlt := (awaited_lt h).1
  have hlt' := (awaited_lt hother).1
  have hnat := congrArg UInt64.toNat hid
  rwa [UInt64.toNat_ofNat_of_lt' (hlt.trans hfew), UInt64.toNat_ofNat_of_lt' (hlt'.trans hfew)]
    at hnat

/-- The outcome of the newest copy takes the place of the one before. -/
theorem stands_of_ends (hends : ∀ other, Ends past event other ↔ other = result)
    (feedback : CopyFeedback) (time : Binary64) :
    some (result.feedback, event.time) = some (feedback, time) ↔
      ∃ other : CopyResult, other.feedback = feedback ∧ Stands (event :: past) other time := by
  simp only [stands_cons, hends]
  constructor
  · intro h
    obtain ⟨rfl, rfl⟩ := Prod.mk.inj (Option.some.inj h)
    exact ⟨result, rfl, Or.inl ⟨rfl, rfl⟩⟩
  · rintro ⟨_, rfl, ⟨rfl, rfl⟩ | ⟨-, hnone, -⟩⟩
    · rfl
    · exact (hnone result rfl).elim

/-- An event that begins no copy and settles no awaited promise can only hide an outcome. -/
theorem told_quiet {last : Option (CopyFeedback × Binary64)} (h : Told past copies promises)
    (hwriter : event.writer? = none)
    (hsettle : ∀ promise settlement, event.operation = .settle promise settlement →
      ∀ id, promises[promise]? ≠ some (some id))
    (hlast : ∀ feedback time, last = some (feedback, time) ↔
      copies.last = some (feedback, time) ∧
        ((∃ message, feedback = .failed message) → event.operation ≠ .dismissFailure)) :
    Told (event :: past) { copies with last } promises := by
  have hdead : ∀ promise settlement, event.operation = .settle promise settlement →
      ∀ number, ¬ Awaited promise number past := by
    intro promise settlement he number hawaited
    exact hsettle promise settlement he _ ((h.awaited promise _).mpr ⟨number, hawaited, rfl⟩)
  have hawaited : ∀ promise number,
      Awaited promise number (event :: past) ↔ Awaited promise number past := by
    intro promise number
    rw [awaited_cons, hwriter]
    simp only [reduceCtorEq, false_and, exists_false, false_or, and_iff_left_iff_imp]
    exact fun h settlement he => hdead promise settlement he number h
  -- Neither of the two ways to end a copy is left.
  have hends : ∀ result, ¬ Ends past event result := by
    rintro result (⟨hcopy, -⟩ | ⟨he, h, -, -⟩)
    · rw [hwriter] at hcopy
      cases hcopy
    · exact hdead _ _ he _ h
  refine ⟨?_, ?_, ?_, ?_, ?_⟩
  · simp [started_cons, hwriter, h.nextId]
  · simp [promised_cons, hwriter, h.length]
  · simpa only [hawaited] using h.awaited
  · simpa [hawaited, started_cons, hwriter] using h.pending
  · intro feedback time
    rw [hlast, h.last]
    simp only [stands_cons, hends, false_and, false_or, not_false_eq_true, implies_true, true_and]
    constructor
    · rintro ⟨⟨result, rfl, hstands⟩, hkept⟩
      refine ⟨result, rfl, hstands, fun hdismissed => ?_⟩
      by_contra hfailed
      exact hkept (Panel.ne_written_iff.mp hfailed) hdismissed
    · rintro ⟨result, rfl, hstands, hkept⟩
      refine ⟨⟨result, rfl, hstands⟩, fun hfailed hdismissed => ?_⟩
      exact Panel.ne_written_iff.mpr hfailed (hkept hdismissed)

theorem told_ended (h : Told past copies promises) (hresult : writer.result? = some result) :
    Told (⟨⟨time, .copy writer⟩, .written text⟩ :: past)
      ⟨copies.nextId + 1, none, some (result.feedback, time)⟩ promises := by
  have hends : ∀ other, Ends past ⟨⟨time, .copy writer⟩, .written text⟩ other ↔
      other = result := by
    intro other
    rw [ends_copy, hresult, Option.some.injEq, eq_comm]
  refine ⟨?_, ?_, ?_, ?_, stands_of_ends hends⟩
  · simp [started_cons, writer?_copy, h.nextId]
  · simp [promised_cons, writer?_copy, hresult, h.length]
  · simpa [awaited_copy, hresult] using h.awaited
  · intro id
    simp only [awaited_copy, hresult, reduceCtorEq, false_and, false_or, false_iff]
    rintro ⟨promise, number, hawaited, hnewest, -⟩
    have hlt := (awaited_lt hawaited).1
    simp [started_cons, writer?_copy] at hnewest
    omega

/-- The promise of a new copy stands behind those that there are. -/
theorem awaited_promised (h : Told past copies promises) (hresult : writer.result? = none)
    (promise : Nat) (id : UInt64) :
    (promises ++ [some copies.nextId])[promise]? = some (some id) ↔
      ∃ number, Awaited promise number (⟨⟨time, .copy writer⟩, .written text⟩ :: past) ∧
        id = .ofNat number := by
  simp only [awaited_copy, hresult, true_and]
  rcases Nat.lt_trichotomy promise promises.length with hlt | rfl | hgt
  · have hne : promised past ≠ promise := by
      rw [← h.length]
      omega
    rw [List.getElem?_append_left hlt, h.awaited]
    simp [hne]
  · have hnew : ∀ number, ¬ Awaited promises.length number past := by
      intro number hawaited
      have hlt := (awaited_lt hawaited).2
      rw [← h.length] at hlt
      omega
    rw [List.getElem?_concat_length, h.nextId]
    simp [hnew, ← h.length, eq_comm]
  · have hnone : ∀ number, ¬ Awaited promise number past := by
      intro number hawaited
      have hlt := (awaited_lt hawaited).2
      rw [← h.length] at hlt
      omega
    have hne : promised past ≠ promise := by
      rw [← h.length]
      omega
    rw [List.getElem?_eq_none (by rw [List.length_append]; exact hgt)]
    simp [hnone, hne]

theorem told_promised (h : Told past copies promises) (hresult : writer.result? = none) :
    Told (⟨⟨time, .copy writer⟩, .written text⟩ :: past)
      { copies with nextId := copies.nextId + 1, pending := some copies.nextId }
      (promises ++ [some copies.nextId]) := by
  refine ⟨?_, ?_, awaited_promised h hresult, ?_, ?_⟩
  · simp [started_cons, writer?_copy, h.nextId]
  · simp [promised_cons, writer?_copy, hresult, h.length]
  · intro id
    simp only [awaited_copy, hresult, true_and, started_cons, writer?_copy, Option.isSome_some,
      if_true, Option.some.injEq]
    constructor
    · rintro rfl
      exact ⟨promised past, started past, Or.inl ⟨rfl, rfl⟩, rfl, h.nextId⟩
    · rintro ⟨promise, number, -, hnewest, rfl⟩
      rw [h.nextId, Nat.add_right_cancel hnewest]
  · simpa [stands_cons, ends_copy, hresult] using h.last

theorem told_settle {after : Copies} (h : Told past copies promises)
    (hnextId : after.nextId = copies.nextId)
    (hpending : ∀ id, after.pending = some id ↔ ∃ other number, Awaited other number past ∧
      promise ≠ other ∧ started past = number + 1 ∧ id = .ofNat number)
    (hlast : ∀ feedback at', after.last = some (feedback, at') ↔
      ∃ result : CopyResult, result.feedback = feedback ∧
        Stands (⟨⟨time, .settle promise settlement⟩, .nothing⟩ :: past) result at') :
    Told (⟨⟨time, .settle promise settlement⟩, .nothing⟩ :: past) after
      (promises.set promise none) := by
  refine ⟨?_, ?_, ?_, ?_, hlast⟩
  · simp [started_cons, writer?_settle, hnextId, h.nextId]
  · simp [promised_cons, writer?_settle, h.length]
  · intro other id
    simp only [awaited_settle]
    rw [List.getElem?_set]
    split
    · rename_i heq
      simp [heq]
    · rename_i hne
      rw [h.awaited]
      simp [hne]
  · simpa [awaited_settle, started_cons, writer?_settle, and_assoc] using hpending

/-- The copy of an awaited promise is open exactly if it is the newest. -/
theorem pending_iff_newest (h : Told past copies promises) (hfew : started past < 2 ^ 64)
    (hpromise : promises[promise]? = some (some id)) : copies.pending = some id ↔
      ∃ number, Awaited promise number past ∧ started past = number + 1 := by
  obtain ⟨number, hawaited, rfl⟩ := (h.awaited promise id).mp hpromise
  rw [h.pending]
  constructor
  · rintro ⟨other, number', hother, hnewest, hid⟩
    obtain rfl := number_eq hfew hawaited hother hid
    exact ⟨number, hawaited, hnewest⟩
  · rintro ⟨number', hother, hnewest⟩
    obtain rfl := (awaited_unique hawaited hother).mp rfl
    exact ⟨promise, number, hawaited, hnewest, rfl⟩

theorem told_newest (h : Told past copies promises) (hfew : started past < 2 ^ 64)
    (hpromise : promises[promise]? = some (some id)) (hpending : copies.pending = some id) :
    Told (⟨⟨time, .settle promise settlement⟩, .nothing⟩ :: past)
      { copies with pending := none, last := some (settlement.copyResult.feedback, time) }
      (promises.set promise none) := by
  obtain ⟨number, hawaited, hnewest⟩ := (pending_iff_newest h hfew hpromise).mp hpending
  have hends : ∀ other, Ends past ⟨⟨time, .settle promise settlement⟩, .nothing⟩ other ↔
      other = settlement.copyResult := by
    intro other
    rw [ends_settle, and_iff_right ⟨number, hawaited, hnewest⟩, eq_comm]
  refine told_settle h rfl (fun id => ?_) (stands_of_ends hends)
  simp only [reduceCtorEq, false_iff]
  rintro ⟨other, number', hother, hne, hnewest', -⟩
  exact hne ((awaited_unique hawaited hother).mpr (by omega))

theorem told_late (h : Told past copies promises) (hfew : started past < 2 ^ 64)
    (hpromise : promises[promise]? = some (some id)) (hpending : copies.pending ≠ some id) :
    Told (⟨⟨time, .settle promise settlement⟩, .nothing⟩ :: past) copies
      (promises.set promise none) := by
  have hnot : ¬ ∃ number, Awaited promise number past ∧ started past = number + 1 :=
    fun hnewest => hpending ((pending_iff_newest h hfew hpromise).mpr hnewest)
  refine told_settle h rfl (fun id => ?_) (fun feedback at' => ?_)
  · rw [h.pending]
    constructor
    · -- The copy that is open is not that of the settled promise.
      rintro ⟨other, number, hother, hnewest, rfl⟩
      refine ⟨other, number, hother, ?_, hnewest, rfl⟩
      rintro rfl
      exact hnot ⟨number, hother, hnewest⟩
    · rintro ⟨other, number, hother, -, hnewest, rfl⟩
      exact ⟨other, number, hother, hnewest, rfl⟩
  · simpa [stands_cons, ends_settle, hnot] using h.last feedback at'

theorem told_step {after : Copies} {promises' : List (Option UInt64)}
    (h : Told past copies promises) (hstep : Advances copies promises event after promises')
    (hfew : started past < 2 ^ 64) : Told (event :: past) after promises' := by
  cases hstep with
  | ended time text hresult => exact told_ended h hresult
  | promised time text hresult => exact told_promised h hresult
  | newest time settlement hpromise hpending => exact told_newest h hfew hpromise hpending
  | late time settlement hpromise hpending => exact told_late h hfew hpromise hpending
  | dismissed time =>
    rw [Panel.dismiss_eq]
    refine told_quiet h rfl (by rintro promise settlement ⟨⟩) fun feedback time => ?_
    rw [Panel.dismiss_last]
    simp
  | other hwriter hsettle hkept => exact told_quiet h hwriter hsettle (by simp [hkept])

theorem told_run {settings : Settings} {value : HostValue} {notes : List Note}
    (h : create settings value = .ok (start, notes)) (hfew : started (start.past steps) < 2 ^ 64) :
    Told (start.past steps) (start.run steps).panel.copies (start.run steps).promises := by
  induction steps using List.reverseRecOn with
  | nil =>
    obtain ⟨config, -, rfl⟩ := create_ok h
    exact told_nil
  | append_singleton steps step ih =>
    rw [past_append_singleton] at hfew ⊢
    rw [run_append_singleton]
    have hbefore : started (start.past steps) < 2 ^ 64 := by
      rw [started_cons] at hfew
      omega
    exact told_step (ih hbefore) (advances_perform _ step) hbefore

/-! What is promised of copies. -/

/-- What holds of a studio that was made with some settings, after the events up to now. -/
structure Faithful (settings : Settings) (past : List Event) (studio : Studio) : Prop where
  /-- A writer receives the text of the moment. -/
  received : ∀ writer now text,
    (studio.copy writer now).result = .ok text ↔ studio.exportedText = .ok text
  /-- A writer that throws fails at once. -/
  thrown : ∀ value now, (∃ text, studio.exportedText = .ok text) →
    (studio.copy (.throws value) now).state.panel.copies.last =
      some (.failed value.failureMessage, now)
  /-- Nothing is known of an answer when it is given. -/
  answered : ∀ now,
    (studio.copy .answers now).state.panel.copies.last = studio.panel.copies.last
  /-- The outcome of a promise is taken if no newer copy was begun until it comes. -/
  arrives : ∀ promise number settlement now, Awaited promise number past →
    (studio.settle promise settlement now).state.panel =
      if started past = number + 1 then
        { studio.panel with copies := { studio.panel.copies with
            pending := none, last := some (settlement.copyResult.feedback, now) } }
      else studio.panel
  /-- Every promise counts once. -/
  again : ∀ promise settlement now, (∀ number, ¬ Awaited promise number past) →
    studio.settle promise settlement now = ⟨studio, (), []⟩
  shown : ∀ result time, Stands past result time → ∀ now, studio.copyFeedback now =
    if (now.sub time).lt settings.feedbackTime then result.feedback else .idle
  hidden : (∀ result time, ¬ Stands past result time) → ∀ now, studio.copyFeedback now = .idle
  /-- A settlement changes what is kept of copies and nothing else, and no element is called. -/
  settled : ∀ promise settlement now,
    (∃ copies promises, (studio.settle promise settlement now).state =
      ⟨{ studio.panel with copies }, promises⟩) ∧
    ∀ element, callsTo element (studio.settle promise settlement now).effects = []

theorem received_iff (studio : Studio) (writer : Writer) (now : Binary64) (text : String) :
    (studio.copy writer now).result = .ok text ↔ studio.exportedText = .ok text := by
  unfold exportedText
  cases hexported : studio.panel.exported with
  | ok other => rw [copy_text hexported]
  | error cause =>
    rw [copy_of_error hexported]
    simp [refuse]

theorem last_throws {value : HostValue} (h : studio.exportedText = .ok text) :
    (studio.copy (.throws value) time).state.panel.copies.last =
      some (.failed value.failureMessage, time) := by
  unfold exportedText at h
  cases hexported : studio.panel.exported with
  | ok other => rw [copy_of_some hexported rfl, CopyResult.feedback]
  | error cause =>
    rw [hexported] at h
    cases h

theorem last_answers :
    (studio.copy .answers time).state.panel.copies.last = studio.panel.copies.last := by
  cases hexported : studio.panel.exported with
  | ok text => rw [copy_of_none hexported rfl, Copies.start]
  | error cause => rw [copy_of_error hexported, refuse]

theorem settle_awaited (h : Told past studio.panel.copies studio.promises)
    (hfew : started past < 2 ^ 64) (hawaited : Awaited promise number past) :
    (studio.settle promise settlement time).state.panel =
      if started past = number + 1 then
        { studio.panel with copies := { studio.panel.copies with
            pending := none, last := some (settlement.copyResult.feedback, time) } }
      else studio.panel := by
  have hpromise := (h.awaited promise _).mpr ⟨number, hawaited, rfl⟩
  have hpending := pending_iff_newest h hfew hpromise
  split
  · rename_i hnewest
    rw [settle_of_pending hpromise (hpending.mpr ⟨number, hawaited, hnewest⟩)]
  · rename_i hnewer
    rw [settle_of_not_pending hpromise]
    rw [ne_eq, hpending]
    rintro ⟨other, hother, hnewest⟩
    obtain rfl := (awaited_unique hawaited hother).mp rfl
    exact hnewer hnewest

theorem settle_not_awaited (h : Told past studio.panel.copies studio.promises)
    (hnone : ∀ number, ¬ Awaited promise number past) :
    studio.settle promise settlement time = ⟨studio, (), []⟩ := by
  apply settle_of_dead
  intro id hpromise
  obtain ⟨number, hawaited, -⟩ := (h.awaited promise id).mp hpromise
  exact hnone number hawaited

theorem settle_settled (studio : Studio) (promise : Nat) (settlement : Settlement)
    (now : Binary64) :
    (∃ copies promises, (studio.settle promise settlement now).state =
      ⟨{ studio.panel with copies }, promises⟩) ∧
    ∀ element, callsTo element (studio.settle promise settlement now).effects = [] := by
  by_cases hpromise : ∃ id, studio.promises[promise]? = some (some id)
  · obtain ⟨id, hpromise⟩ := hpromise
    by_cases hpending : studio.panel.copies.pending = some id
    · rw [settle_of_pending hpromise hpending]
      exact ⟨⟨_, _, rfl⟩, fun _ => callsTo_map_note⟩
    · rw [settle_of_not_pending hpromise hpending]
      exact ⟨⟨_, _, rfl⟩, fun _ => rfl⟩
  · rw [settle_of_dead (not_exists.mp hpromise)]
    exact ⟨⟨_, _, rfl⟩, fun _ => rfl⟩

/-- Copies may overlap and end in any order: only the newest one counts, and a settlement touches
nothing but the feedback. -/
theorem faithful_run {settings : Settings} {value : HostValue} {notes : List Note}
    (h : create settings value = .ok (start, notes)) (steps : List Step)
    (hfew : started (start.past steps) < 2 ^ 64) :
    Faithful settings (start.past steps) (start.run steps) := by
  have htold := told_run h hfew
  have hsettings : (start.run steps).panel.settings = settings := by
    rw [(follows_run start steps).1, Panel.settings_run]
    obtain ⟨config, -, rfl⟩ := create_ok h
    rfl
  refine ⟨received_iff _, ?_, fun now => last_answers,
    fun promise number settlement now => settle_awaited htold hfew,
    fun promise settlement now => settle_not_awaited htold, ?_, ?_, settle_settled _⟩
  · rintro value now ⟨text, htext⟩
    exact last_throws htext
  · intro result time hstands now
    have hlast := (htold.last result.feedback time).mpr ⟨result, rfl, hstands⟩
    simp only [copyFeedback, Panel.copyFeedback, Copies.feedback, hlast, hsettings]
  · intro hnone now
    cases hlast : (start.run steps).panel.copies.last with
    | none => simp only [copyFeedback, Panel.copyFeedback, Copies.feedback, hlast]
    | some last =>
      obtain ⟨result, -, hstands⟩ := (htold.last last.1 last.2).mp hlast
      exact (hnone result last.2 hstands).elim

theorem started_past_le : started (studio.past steps) ≤ steps.length := by
  have hlength : (studio.history steps).length = steps.length := by
    induction steps generalizing studio with
    | nil => rfl
    | cons step steps ih => simp [history, ih]
  rw [← hlength, ← List.length_reverse]
  exact List.length_filterMap_le _ _

/-- Three copies, of which the first two are overtaken: the outcomes come in reverse order, one of
them twice, and the config changes in between. -/
def overtakenCopies : List Step :=
  [⟨.ofNat 1, .copy .answers⟩, ⟨.ofNat 2, .copy .answers⟩, ⟨.ofNat 3, .setFormat "css"⟩,
    ⟨.ofNat 4, .copy .answers⟩, ⟨.ofNat 5, .settle 2 (.rejected (.error "denied"))⟩,
    ⟨.ofNat 6, .settle 1 .fulfilled⟩, ⟨.ofNat 7, .settle 2 .fulfilled⟩, ⟨.ofNat 8, .dismissFailure⟩,
    ⟨.ofNat 9, .copy (.throws .null)⟩, ⟨.ofNat 10, .settle 0 (.rejected (.text "late"))⟩]

theorem faithful_run_overtakenCopies :
    ∃ start notes, create {} .undefined = .ok (start, notes) ∧
      started (start.past overtakenCopies) < 2 ^ 64 ∧
      Faithful {} (start.past overtakenCopies) (start.run overtakenCopies) := by
  have hcreate := create_of_missing {} (rfl : HostValue.isMissing .undefined = true)
  have hfew : started ((⟨(Panel.create {} Config.default).1, []⟩ : Studio).past overtakenCopies) <
      2 ^ 64 :=
    Nat.lt_of_le_of_lt started_past_le (by decide)
  exact ⟨_, _, hcreate, hfew, faithful_run hcreate overtakenCopies hfew⟩

end AnimationKit.Studio
