import AnimationKit.Proofs.Page.Totals
import AnimationKit.Proofs.Preview.Starting

/-!
How often animations start. Every start is one that was asked for: by an operation that put a config
on an element, or by a replay, which alone flushes the layout and is counted.
-/
namespace AnimationKit

namespace Page

variable {call : ElementCall}

theorem keeps_animationStarts (h : ∀ token, call ≠ .addClass token) :
    Keeps Element.animationStarts call := by
  intro element
  cases call with
  | addClass token => exact (h token rfl).elim
  | _ => rfl

theorem keeps_reflows (h : call ≠ .reflow) : Keeps Element.reflows call := by
  intro element
  cases call with
  | addClass token =>
    simp only [Element.apply]
    split <;> rfl
  | reflow => exact (h rfl).elim
  | _ => rfl

end Page

theorem Still.keeps {effects : List Effect} (h : Still effects) :
    ∀ id call, .call id call ∈ effects → Page.Keeps Element.animationStarts call := by
  intro id call hm
  apply Page.keeps_animationStarts
  rintro token rfl
  exact h id token hm

namespace Binder

variable {b : Binder} {config : Config} {applied : Option Config} {page : Page}
  {target : Option ElementId} {id : ElementId} {effects : List Effect}

/-- The operation was to replay an animation, and did. -/
def Operation.replays (operation : Operation) (reply : Reply) : Bool :=
  match operation with
  | .replay => decide (reply = .success true)
  | .bind _ _ | .rebind _ | .pause | .resume | .unbind => false

theorem eq_replay_of_replays {operation : Operation} {reply : Reply}
    (h : operation.replays reply = true) : operation = .replay := by
  cases operation <;> simp [Operation.replays] at h ⊢

/-- A start on an element of the page counts once. -/
theorem StartsComplete.total {share : ElementId → Appearance}
    (h : StartsComplete share config id effects) (hplain : page.Plain)
    (hpage : ∀ done, done <+: effects →
      (page.performAll done).Shows Preview.names fun id => (share id).applyAll (callsTo id done))
    (hid : id < page.elements.length) :
    (page.performAll effects).total Element.animationStarts =
      page.total Element.animationStarts + 1 := by
  obtain ⟨before, token, after, hlaunch, hk, hready⟩ := h
  obtain ⟨found, hf⟩ : ∃ found, (page.performAll before).elements[id]? = some found := by
    rw [Page.getElem?_performAll, List.getElem?_eq_getElem hid]
    exact ⟨_, rfl⟩
  refine Page.total_performAll_of_once hplain hlaunch.effects_eq hlaunch.still_before.keeps
    hlaunch.still_after.keeps hf ?_
  have hshows : found.appearance.within Preview.names =
      (share id).applyAll (callsTo id before) :=
    (hpage before ⟨_, hlaunch.effects_eq.symm⟩ id found hf).2.2
  rw [hready] at hshows
  have hclasses : found.element.classes.filter Preview.names.ofClass = [] :=
    congrArg Appearance.classes hshows
  have hm : token ∉ found.element.classes := by
    intro hm
    exact List.filter_eq_nil_iff.mp hclasses token hm (Preview.ofClass_token hk)
  simp [Element.apply, hm]

theorem total_starts_perform (operation : Operation) (h : b.Situation applied)
    (hplain : page.Plain) (hpage : page.Shows Preview.names (b.share applied))
    (hid : ∀ id, (b.perform operation).state.target = some id → id < page.elements.length) :
    (page.performAll (b.perform operation).effects).total Element.animationStarts =
      page.total Element.animationStarts +
        if operation.starts (b.perform operation).result then 1 else 0 := by
  rcases starts_perform operation h with ⟨hno, hstill⟩ | ⟨hyes, config, id, -, ht, hcomplete⟩
  · rw [hno]
    exact Page.total_performAll_of_keeps hplain hstill.keeps
  · rw [if_pos hyes]
    exact hcomplete.total hplain (shows_done operation h hpage) (hid id ht)

/-! Flushes. -/

theorem not_reflow_removal (marks : Marks) : .reflow ∉ marks.removal := by
  simp [Marks.removal_eq]

theorem not_reflow_apply : .call id .reflow ∉ (b.apply config).effects := by
  cases ht : b.target with
  | none => simp [apply_of_target_none ht]
  | some element =>
    cases hc : Animation.ofConfig config with
    | error cause => simp [apply_of_error ht hc]
    | ok animation => simp [apply_of_ok ht hc, mem_onTarget, applyCalls]

theorem not_reflow_bind : .call id .reflow ∉ (b.bind config target).effects := by
  intro hm
  rcases List.mem_append.mp hm with hm | hm
  · exact not_reflow_removal _ (mem_onTarget.mp hm).2
  · exact not_reflow_apply hm

theorem not_reflow_hold {before after : PreviewState} {value : String} {note : Note} :
    .call id .reflow ∉ (b.hold before after value note).effects := by
  unfold hold
  split <;> simp [mem_onTarget]

/-- Nothing but a replay flushes the layout. -/
theorem not_reflow_perform {operation : Operation}
    (h : operation.replays (b.perform operation).result = false) :
    .call id .reflow ∉ (b.perform operation).effects := by
  cases operation with
  | bind config target => exact not_reflow_bind
  | rebind config => exact not_reflow_bind
  | replay =>
    have hrefused : b.replay.result = false := by
      simpa [Operation.replays, perform, Outcome.map] using h
    simp [perform, Outcome.map, replay_of_refused hrefused]
  | pause => exact not_reflow_hold
  | resume => exact not_reflow_hold
  | unbind =>
    intro hm
    rcases List.mem_append.mp hm with hm | hm
    · exact not_reflow_removal _ (mem_onTarget.mp hm).2
    · simp at hm

/-- A replay flushes the layout once, and writes no style. -/
theorem replay_cases (b : Binder) :
    b.replay = ⟨b, false, []⟩ ∨
      ∃ id token, b.target = some id ∧ b.marks.token = some token ∧ b.replay.result = true ∧
        b.replay.state.replays = b.replays + 1 ∧
        b.replay.effects = b.onTarget ((if b.marks.playState then [.removeStyle playStateName]
          else []) ++ [.removeClass token]) ++ .call id .reflow :: (b.onTarget [.addClass token] ++
            [.note (.replayed token (b.replays + 1))]) := by
  cases ht : b.target with
  | none => exact Or.inl (replay_of_none (Or.inl ht))
  | some id =>
    cases hm : b.marks.token with
    | none => exact Or.inl (replay_of_none (Or.inr hm))
    | some token =>
      right
      refine ⟨id, token, rfl, rfl, ?_, ?_, ?_⟩
      · rw [replay_of_some ht hm]
      · rw [replay_of_some ht hm]
      · rw [replay_of_some ht hm, replayCalls]
        simp [onTarget, ht]

theorem total_reflows_perform (operation : Operation) (hplain : page.Plain)
    (hid : ∀ id, b.target = some id → id < page.elements.length) :
    (page.performAll (b.perform operation).effects).total Element.reflows =
      page.total Element.reflows +
        if operation.replays (b.perform operation).result then 1 else 0 := by
  cases hreplays : operation.replays (b.perform operation).result with
  | false =>
    apply Page.total_performAll_of_keeps hplain
    intro id call hm
    apply Page.keeps_reflows
    rintro rfl
    exact not_reflow_perform hreplays hm
  | true =>
    obtain rfl := eq_replay_of_replays hreplays
    rcases replay_cases b with hrefused | ⟨id, token, ht, hm, -, -, heffects⟩
    · simp [Operation.replays, perform, Outcome.map, hrefused] at hreplays
    · obtain ⟨found, hf⟩ : ∃ found, (page.performAll (b.onTarget ((if b.marks.playState then
          [.removeStyle playStateName] else []) ++ [.removeClass token]))).elements[id]? =
            some found := by
        rw [Page.getElem?_performAll, List.getElem?_eq_getElem (hid id ht)]
        exact ⟨_, rfl⟩
      refine Page.total_performAll_of_once hplain heffects ?_ ?_ hf rfl
      · intro id call hm
        apply Page.keeps_reflows
        rintro rfl
        have hmem := (mem_onTarget.mp hm).2
        split at hmem <;> simp at hmem
      · intro id call hm
        apply Page.keeps_reflows
        rintro rfl
        simp [mem_onTarget] at hm

/-! The number of replays. -/

theorem replays_apply : (b.apply config).state.replays = b.replays := by
  unfold apply
  split
  · rfl
  · split <;> rfl

theorem replays_hold {before after : PreviewState} {value : String} {note : Note} :
    (b.hold before after value note).state.replays = b.replays := by
  unfold hold
  split <;> rfl

theorem replays_perform_of_ne {operation : Operation} (h : operation ≠ .replay) :
    (b.perform operation).state.replays = b.replays := by
  cases operation with
  | bind config target => exact replays_apply
  | rebind config => exact replays_apply
  | replay => exact (h rfl).elim
  | pause => exact replays_hold
  | resume => exact replays_hold
  | unbind => rfl

/-- Nothing but a replay that restarts an animation is counted. -/
theorem replays_perform_of_not {operation : Operation}
    (h : operation.replays (b.perform operation).result = false) :
    (b.perform operation).state.replays = b.replays := by
  by_cases hreplay : operation = .replay
  · subst hreplay
    have hrefused : b.replay.result = false := by
      simpa [Operation.replays, perform, Outcome.map] using h
    simp [perform, Outcome.map, replay_of_refused hrefused]
  · exact replays_perform_of_ne hreplay

theorem replays_perform (operation : Operation) : (b.perform operation).state.replays.toNat =
    (b.replays.toNat + if operation.replays (b.perform operation).result then 1 else 0) %
      2 ^ 64 := by
  cases hreplays : operation.replays (b.perform operation).result with
  | false =>
    rw [replays_perform_of_not hreplays, if_neg Bool.false_ne_true, Nat.add_zero,
      Nat.mod_eq_of_lt b.replays.toNat_lt]
  | true =>
    obtain rfl := eq_replay_of_replays hreplays
    rcases replay_cases b with hrefused | ⟨id, token, -, -, -, hnext, -⟩
    · simp [Operation.replays, perform, Outcome.map, hrefused] at hreplays
    · rw [if_pos rfl]
      exact (congrArg UInt64.toNat hnext).trans (UInt64.toNat_add _ _)

/-- A replay does not write what is there already. -/
theorem not_setStyle_replay {name value : String} :
    .call id (.setStyle name value) ∉ b.replay.effects := by
  rcases replay_cases b with hrefused | ⟨element, token, -, -, -, -, heffects⟩
  · simp [hrefused]
  · rw [heffects]
    intro hm
    simp only [List.mem_append, List.mem_cons, mem_onTarget] at hm
    split at hm <;> simp at hm

theorem mem_hold {before after : PreviewState} {value : String} {note : Note} {call : ElementCall}
    (h : .call id call ∈ (b.hold before after value note).effects) :
    call = .setStyle playStateName value := by
  unfold hold at h
  split at h
  · have hm : .call id call ∈ b.onTarget [.setStyle playStateName value] :=
      (List.mem_append.mp h).resolve_right (by simp)
    simpa using (mem_onTarget.mp hm).2
  · simp at h

/-- Holding an animation and going on with it touch no class. -/
theorem not_class_of_hold {operation : Operation} {call : ElementCall}
    (hhold : operation = .pause ∨ operation = .resume)
    (h : .call id call ∈ (b.perform operation).effects) :
    (∀ token, call ≠ .addClass token) ∧ ∀ token, call ≠ .removeClass token := by
  obtain ⟨value, rfl⟩ : ∃ value, call = .setStyle playStateName value := by
    rcases hhold with rfl | rfl
    · exact ⟨_, mem_hold h⟩
    · exact ⟨_, mem_hold h⟩
  simp

end Binder

namespace Scene

variable {page alone : Page} {b : Binder} {applied : Option Config} {scene : Scene} {step : Step}
  {steps holds : List Step} {started replayed count : Nat}

/-- An operation of a binder with what it gave back. -/
abbrev Event := Binder.Operation × Binder.Reply

def event? (scene : Scene) (step : Step) : Option Event :=
  match step with
  | .operate _ operation => (scene.perform step).2.map fun reply => (operation, reply)
  | .renew _ | .touch _ _ => none

/-- The operations of some steps, in order. -/
def events (scene : Scene) : List Step → List Event
  | [] => []
  | step :: steps => (scene.event? step).toList ++ (scene.perform step).1.events steps

/-- How many of the operations were to start an animation, and did. -/
def starts (scene : Scene) (steps : List Step) : Nat :=
  (scene.events steps).countP fun event => event.1.starts event.2

/-- How many of the operations were to replay an animation, and did. -/
def replays (scene : Scene) (steps : List Step) : Nat :=
  (scene.events steps).countP fun event => event.1.replays event.2

theorem events_append_singleton :
    scene.events (steps ++ [step]) =
      scene.events steps ++ ((scene.run steps).event? step).toList := by
  induction steps generalizing scene with
  | nil => simp [events, run]
  | cons first steps ih => simp [events, run, ih]

/-- A binder is put on elements that are there. -/
def Step.Within (count : Nat) : Step → Prop
  | .operate _ (.bind _ (some id)) => id < count
  | .operate _ _ | .renew _ | .touch _ _ => True

/-- The counters of a page, and the one of the binder on it, beside those of the page by itself. -/
structure Books (page alone : Page) (b : Binder) (started replayed : Nat) : Prop where
  starts_eq : page.total Element.animationStarts = alone.total Element.animationStarts + started
  reflows_eq : page.total Element.reflows = alone.total Element.reflows + replayed
  replays_eq : b.replays.toNat = replayed % 2 ^ 64

/-- What keeps the books in order. -/
structure Kept (count : Nat) (page alone : Page) (b : Binder) (started replayed : Nat) : Prop where
  books : Books page alone b started replayed
  plain : page.Plain
  beside : Page.Beside Preview.names page alone
  length_eq : page.elements.length = count
  within : ∀ id, b.target = some id → id < count

theorem target_within {operation : Binder.Operation}
    (h : ∀ id, b.target = some id → id < count)
    (hstep : (Step.operate 0 operation).Within count) :
    ∀ id, (b.perform operation).state.target = some id → id < count := by
  intro id hid
  cases operation with
  | bind config target =>
    have htarget : (b.bind config target).state.target = target := Binder.apply_target
    obtain rfl : target = some id := htarget.symm.trans hid
    exact hstep
  | rebind config =>
    have htarget : (b.rebind config).state.target = b.target := Binder.apply_target
    exact h id (htarget.symm.trans hid)
  | replay => exact h id (Binder.target_replay.symm.trans hid)
  | pause => exact h id (Binder.target_hold.symm.trans hid)
  | resume => exact h id (Binder.target_hold.symm.trans hid)
  | unbind => exact (Option.some_ne_none id hid.symm).elim

theorem kept_perform {operation : Binder.Operation} (h : Kept count page alone b started replayed)
    (hsituation : b.Situation applied) (hshows : page.Shows Preview.names (b.share applied))
    (hwithin : (Step.operate 0 operation).Within count) :
    Kept count (page.performAll (b.perform operation).effects) alone (b.perform operation).state
      (started + if operation.starts (b.perform operation).result then 1 else 0)
      (replayed + if operation.replays (b.perform operation).result then 1 else 0) := by
  obtain ⟨⟨hstarts, hreflows, hreplays⟩, hplain, hbeside, rfl, htarget⟩ := h
  have htarget' := target_within htarget hwithin
  refine ⟨⟨?_, ?_, ?_⟩, Page.plain_performAll hplain, ?_, Page.length_performAll, htarget'⟩
  · rw [Binder.total_starts_perform operation hsituation hplain hshows htarget', hstarts]
    omega
  · rw [Binder.total_reflows_perform operation hplain htarget, hreflows]
    omega
  · rw [Binder.replays_perform, hreplays, Nat.mod_add_mod]
  · apply Page.beside_performAll hbeside
    intro id call hc
    exact Binder.covers_perform (Binder.within_of_situation hsituation) hc

theorem kept_touch {id : ElementId} {call : ElementCall}
    (h : Kept count page alone b started replayed)
    (hc : Preview.names.others.covers call = true) :
    Kept count (page.touch id call) (alone.touch id call) b started replayed := by
  obtain ⟨⟨hstarts, hreflows, hreplays⟩, hplain, hbeside, rfl, htarget⟩ := h
  have hstarts' := Page.total_touch_beside id hbeside (Page.countsAlike_animationStarts hc)
  have hreflows' := Page.total_touch_beside id hbeside (Page.countsAlike_reflows call)
  refine ⟨⟨?_, ?_, hreplays⟩, Page.plain_touch hplain, Page.beside_touch hbeside hc,
    Page.length_touch, htarget⟩
  · omega
  · omega

theorem kept_run (hplain : page.Plain) (hpage : page.Untouched)
    (hsolo : ∀ step ∈ steps, step.IsSolo) (hcourteous : ∀ step ∈ steps, step.Courteous)
    (hwithin : ∀ step ∈ steps, step.Within page.elements.length) :
    ∃ b, (run ⟨[{}], page⟩ steps).binders = [b] ∧
      Kept page.elements.length (run ⟨[{}], page⟩ steps).page (touches page steps) b
        (Scene.starts ⟨[{}], page⟩ steps) (Scene.replays ⟨[{}], page⟩ steps) := by
  induction steps using List.reverseRecOn with
  | nil =>
    exact ⟨{}, rfl, ⟨rfl, rfl, rfl⟩, hplain, Page.beside_of_untouched hpage, rfl, by simp⟩
  | append_singleton steps step ih =>
    have hbefore : ∀ earlier ∈ steps, earlier ∈ steps ++ [step] :=
      fun earlier he => List.mem_append_left _ he
    have hsolo' : ∀ step ∈ steps, step.IsSolo := fun earlier he => hsolo _ (hbefore _ he)
    have hcourteous' : ∀ step ∈ steps, step.Courteous :=
      fun earlier he => hcourteous _ (hbefore _ he)
    obtain ⟨b, hb, hkept⟩ := ih hsolo' hcourteous' fun earlier he => hwithin _ (hbefore _ he)
    obtain ⟨b', hb', hsituation, hshows⟩ :=
      solo_run (Page.complies_of_plain hplain) hpage hsolo' hcourteous'
    obtain rfl : b = b' := List.singleton_inj.mp (hb.symm.trans hb')
    have hlast : step ∈ steps ++ [step] := by simp
    have htouches : touches page (steps ++ [step]) = (step.touchOf (touches page steps)) := by
      simp [touches]
    rw [run_append_singleton, htouches, Scene.starts, Scene.replays, events_append_singleton,
      List.countP_append, List.countP_append]
    cases step with
    | operate index operation =>
      obtain rfl : index = 0 := hsolo _ hlast
      refine ⟨(b.perform operation).state, by simp [perform, hb], ?_⟩
      have hnext := kept_perform hkept hsituation hshows (hwithin _ hlast)
      simpa [Scene.starts, Scene.replays, event?, perform, hb, Step.touchOf, List.countP_cons]
        using hnext
    | renew index => exact (hsolo _ hlast).elim
    | touch id call =>
      exact ⟨b, hb, kept_touch hkept (hcourteous _ hlast)⟩

/-- An animation is held, or goes on. -/
def Step.IsHold : Step → Prop
  | .operate _ operation => operation = .pause ∨ operation = .resume
  | .renew _ | .touch _ _ => False

theorem still_of_hold {operation : Binder.Operation}
    (h : operation = .pause ∨ operation = .resume) : Still (b.perform operation).effects :=
  fun _ token hm => (Binder.not_class_of_hold h hm).1 token rfl

theorem total_starts_holds (hplain : scene.page.Plain) (hholds : ∀ step ∈ holds, step.IsHold) :
    (scene.run holds).page.total Element.animationStarts =
      scene.page.total Element.animationStarts := by
  induction holds generalizing scene with
  | nil => rfl
  | cons step holds ih =>
    have hlater : ∀ step ∈ holds, step.IsHold :=
      fun later hl => hholds later (List.mem_cons_of_mem _ hl)
    have hstep : (scene.perform step).1.page.Plain ∧
        (scene.perform step).1.page.total Element.animationStarts =
          scene.page.total Element.animationStarts := by
      have hhold := hholds step List.mem_cons_self
      cases step with
      | operate index operation =>
        cases hb : scene.binders[index]? with
        | none => simp [perform, hb, hplain]
        | some b =>
          simp only [perform, hb]
          exact ⟨Page.plain_performAll hplain,
            Page.total_performAll_of_keeps hplain (still_of_hold hhold).keeps⟩
      | renew index => exact hhold.elim
      | touch id call => exact hhold.elim
    exact (ih hstep.1 hlater).trans hstep.2

/-- After any operations of a binder, among calls of the page that keep off the names of previews,
every start and every flush that is not the page's own was asked for, and replays are counted. -/
theorem accounted_run (hplain : page.Plain) (hpage : page.Untouched)
    (hsolo : ∀ step ∈ steps, step.IsSolo) (hcourteous : ∀ step ∈ steps, step.Courteous)
    (hwithin : ∀ step ∈ steps, step.Within page.elements.length) :
    ∃ b, (run ⟨[{}], page⟩ steps).binders = [b] ∧
      Books (run ⟨[{}], page⟩ steps).page (touches page steps) b
        (Scene.starts ⟨[{}], page⟩ steps) (Scene.replays ⟨[{}], page⟩ steps) ∧
      (∀ operation, operation.replays (b.perform operation).result = false →
        (b.perform operation).state.replays = b.replays) ∧
      (∀ id name value, .call id (.setStyle name value) ∉ b.replay.effects) ∧
      (∀ operation, operation = .pause ∨ operation = .resume → ∀ id token,
        .call id (.addClass token) ∉ (b.perform operation).effects ∧
          .call id (.removeClass token) ∉ (b.perform operation).effects) ∧
      ∀ holds, (∀ step ∈ holds, step.IsHold) →
        (run ⟨[{}], page⟩ (steps ++ holds)).page.total Element.animationStarts =
          (run ⟨[{}], page⟩ steps).page.total Element.animationStarts := by
  obtain ⟨b, hb, hkept⟩ := kept_run hplain hpage hsolo hcourteous hwithin
  refine ⟨b, hb, hkept.books, ?_, ?_, ?_, ?_⟩
  · intro operation hnot
    exact Binder.replays_perform_of_not hnot
  · intro id name value
    exact Binder.not_setStyle_replay
  · intro operation hhold id token
    constructor
    · intro hm
      exact (Binder.not_class_of_hold hhold hm).1 token rfl
    · intro hm
      exact (Binder.not_class_of_hold hhold hm).2 token rfl
  · intro holds hholds
    rw [run, List.foldl_append]
    exact total_starts_holds hkept.plain hholds

theorem accounted_run_pausedAndMoved :
    twoElements.Plain ∧ twoElements.Untouched ∧ (∀ step ∈ pausedAndMoved, step.IsSolo) ∧
      (∀ step ∈ pausedAndMoved, step.Courteous) ∧
      (∀ step ∈ pausedAndMoved, step.Within twoElements.elements.length) ∧
      ∃ b, (run ⟨[{}], twoElements⟩ pausedAndMoved).binders = [b] ∧
        Books (run ⟨[{}], twoElements⟩ pausedAndMoved).page (touches twoElements pausedAndMoved) b
          (Scene.starts ⟨[{}], twoElements⟩ pausedAndMoved)
          (Scene.replays ⟨[{}], twoElements⟩ pausedAndMoved) := by
  have hplain : twoElements.Plain := by
    simp [twoElements, Page.Plain]
  have hwithin : ∀ step ∈ pausedAndMoved, step.Within twoElements.elements.length := by
    simp [pausedAndMoved, twoElements, Step.Within]
  obtain ⟨b, hb, hbooks, -⟩ := accounted_run hplain untouched_twoElements solo_pausedAndMoved
    courteous_pausedAndMoved hwithin
  exact ⟨hplain, untouched_twoElements, solo_pausedAndMoved, courteous_pausedAndMoved, hwithin, b,
    hb, hbooks⟩

end Scene
end AnimationKit
