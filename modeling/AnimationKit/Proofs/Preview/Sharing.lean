import AnimationKit.Proofs.Page.Beside
import AnimationKit.Proofs.Preview.Run
import AnimationKit.Proofs.Preview.Tracking

/-!
Several binders on the elements of one page. Binders that share an element erase what another wrote
and write it again, so no part of an element belongs to one of them. What is kept is a cover: all
that is on an element is tracked by some binder.
-/
namespace AnimationKit

/-- A binder among these tracks this on the element. -/
def Tracked (binders : List Binder) (id : ElementId) (trace : Trace) : Prop :=
  ∃ b ∈ binders, b.Tracks id trace

namespace Page

variable {page alone : Page} {binders binders' : List Binder} {b b' : Binder}

/-- A page with binders beside the page without them. -/
structure Shared (binders : List Binder) (page alone : Page) : Prop where
  within : ∀ b ∈ binders, b.marks.Within
  beside : Beside Preview.names page alone
  covered : ∀ {id target} trace, page.elements[id]? = some target →
    Preview.names.owns trace = true → target.appearance.Bears trace →
    target.Complies ∧ Tracked binders id trace

theorem shared_of_untouched (hwithin : ∀ b ∈ binders, b.marks.Within) (h : page.Untouched) :
    Shared binders page page := by
  refine ⟨hwithin, beside_of_untouched h, ?_⟩
  intro id target trace ht ho hb
  have hempty := (within_of_untouched h (List.mem_of_getElem? ht)).2
  exact (Appearance.not_bears_of_within_empty hempty ho hb).elim

/-- New binders on a page that no preview has touched. -/
theorem shared_new (count : Nat) (h : page.Untouched) :
    Shared (List.replicate count {}) page page := by
  refine shared_of_untouched (fun b hb => ?_) h
  rw [List.eq_of_mem_replicate hb]
  exact Marks.within_empty

/-- One binder turns into another: the cover passes on. -/
theorem shared_performAll {effects : List Effect} (h : Shared binders page alone)
    (hexchange : ∀ id, b.Exchange b' id (callsTo id effects))
    (hcovers : ∀ id, ∀ call ∈ callsTo id effects, Preview.names.covers call = true)
    (hwithin : ∀ b ∈ binders', b.marks.Within)
    (hnew : ∀ {id trace}, b'.Tracks id trace → Tracked binders' id trace)
    (hrest : ∀ {other}, other ∈ binders → other ≠ b → other ∈ binders') :
    Shared binders' (page.performAll effects) alone := by
  refine ⟨hwithin, beside_performAll h.beside hcovers, ?_⟩
  intro id after trace hafter ho hbears
  rw [getElem?_performAll] at hafter
  obtain ⟨target, ht, rfl⟩ := Option.map_eq_some_iff.mp hafter
  by_cases hcomplies : target.Complies
  · refine ⟨PageElement.complies_takeAll hcomplies, ?_⟩
    rw [PageElement.appearance_takeAll hcomplies] at hbears
    rcases (hexchange id).bears hbears with htracks | ⟨hbefore, hnot⟩
    · exact hnew htracks
    · obtain ⟨-, other, hm, htracks⟩ := h.covered trace ht ho hbefore
      have hne : other ≠ b := by
        rintro rfl
        exact hnot htracks
      exact ⟨other, hrest hm hne, htracks⟩
  · rw [PageElement.takeAll_of_not_complies hcomplies] at hbears
    exact (hcomplies (h.covered trace ht ho hbears).1).elim

theorem shared_touch {id : ElementId} {call : ElementCall} (h : Shared binders page alone)
    (hc : Preview.names.others.covers call = true) :
    Shared binders (page.touch id call) (alone.touch id call) := by
  refine ⟨h.within, beside_touch h.beside hc, ?_⟩
  intro element after trace hafter ho hbears
  rw [getElem?_touch] at hafter
  obtain ⟨target, ht, rfl⟩ := Option.map_eq_some_iff.mp hafter
  by_cases he : id = element
  · rw [if_pos he] at hbears ⊢
    rw [PageElement.appearance_touched, ← Appearance.bears_within ho,
      Appearance.within_apply_of_others hc, Appearance.bears_within ho] at hbears
    obtain ⟨hcomplies, htracked⟩ := h.covered trace ht ho hbears
    exact ⟨hcomplies, htracked⟩
  · rw [if_neg he] at hbears ⊢
    exact h.covered trace ht ho hbears

/-- Where no binder has an element, nothing but the page's own part is left. -/
theorem Shared.appearance?_of_released (h : Shared binders page alone)
    (hreleased : ∀ b ∈ binders, b.target = none) (id : ElementId) :
    page.appearance? id = alone.appearance? id := by
  apply h.beside.appearance?_of_empty
  intro a ha
  obtain ⟨target, ht, rfl⟩ := appearance?_eq_some ha
  apply Appearance.within_empty_of_bears
  intro trace ho hb
  obtain ⟨-, b, hm, htracks⟩ := h.covered trace ht ho hb
  exact b.not_tracks_of_target_none (hreleased b hm) htracks

/-- Binders that go away one after the other leave the page to itself. -/
theorem shared_drop (h : Shared binders page alone) :
    Shared [] (binders.foldl (fun page b => page.performAll b.drop) page) alone := by
  induction binders generalizing page with
  | nil => exact h
  | cons b binders ih =>
    have hexchange : ∀ id, b.Exchange {} id (callsTo id b.drop) := fun _ => Binder.exchange_release
    apply ih
    refine shared_performAll h hexchange ?_ ?_ ?_ ?_
    · intro id call hc
      exact Binder.covers_release (h.within b List.mem_cons_self) hc
    · intro other hm
      exact h.within other (List.mem_cons_of_mem _ hm)
    · intro id trace htracks
      exact (Binder.not_tracks_of_target_none rfl htracks).elim
    · intro other hm hne
      exact (List.mem_cons.mp hm).resolve_left hne

end Page

namespace Binder

/-- A binder that has no element gets one by being bound to it only. -/
theorem target_perform_of_none {b : Binder} {operation : Operation} (ht : b.target = none)
    (hbind : ∀ config id, operation ≠ .bind config (some id)) :
    (b.perform operation).state.target = none := by
  cases operation with
  | bind config target =>
    cases target with
    | none => exact apply_target
    | some id => exact (hbind config id rfl).elim
  | rebind config => exact apply_target.trans ht
  | replay => exact target_replay.trans ht
  | pause => exact target_hold.trans ht
  | resume => exact target_hold.trans ht
  | unbind => rfl

end Binder

namespace Scene

variable {scene : Scene} {step : Step} {steps : List Step} {page alone : Page} {index : Nat}
  {b b' : Binder} {effects : List Effect}

/-- What a step makes of the binder with a number, and its effects. -/
inductive Step.Turns (index : Nat) (b : Binder) : Step → Binder → List Effect → Prop
  | operate (operation : Binder.Operation) :
    Turns index b (.operate index operation) (b.perform operation).state
      (b.perform operation).effects
  | renew : Turns index b (.renew index) {} b.drop

/-- The page by itself, without any binder. -/
def Step.touchOf (page : Page) : Step → Page
  | .operate _ _ | .renew _ => page
  | .touch id call => page.touch id call

/-- The page by itself after some steps. -/
def touches (page : Page) (steps : List Step) : Page := steps.foldl Step.touchOf page

theorem perform_cases (scene : Scene) (step : Step) :
    ((scene.perform step).1 = scene ∧ ∀ page, step.touchOf page = page) ∨
      (∃ index b b' effects, scene.binders[index]? = some b ∧ step.Turns index b b' effects ∧
        (scene.perform step).1 = ⟨scene.binders.set index b', scene.page.performAll effects⟩ ∧
        ∀ page, step.touchOf page = page) ∨
      ∃ id call, step = .touch id call := by
  cases step with
  | operate index operation =>
    cases hb : scene.binders[index]? with
    | none => exact Or.inl ⟨by simp [perform, hb], fun _ => rfl⟩
    | some b =>
      exact Or.inr (Or.inl ⟨index, b, _, _, hb, .operate operation, by simp [perform, hb],
        fun _ => rfl⟩)
  | renew index =>
    cases hb : scene.binders[index]? with
    | none => exact Or.inl ⟨by simp [perform, hb], fun _ => rfl⟩
    | some b =>
      exact Or.inr (Or.inl ⟨index, b, _, _, hb, .renew, by simp [perform, hb], fun _ => rfl⟩)
  | touch id call => exact Or.inr (Or.inr ⟨id, call, rfl⟩)

theorem exchange_of_turns (h : step.Turns index b b' effects) (id : ElementId) :
    b.Exchange b' id (callsTo id effects) := by
  cases h with
  | operate operation => exact b.exchange_perform operation
  | renew => exact Binder.exchange_release

theorem covers_of_turns (h : step.Turns index b b' effects) (hb : b.marks.Within) (id : ElementId) :
    ∀ call ∈ callsTo id effects, Preview.names.covers call = true := by
  intro call hc
  cases h with
  | operate operation => exact Binder.covers_perform hb hc
  | renew => exact Binder.covers_release hb hc

theorem within_of_turns (h : step.Turns index b b' effects) (hb : b.marks.Within) :
    b'.marks.Within := by
  cases h with
  | operate operation => exact b.within_perform operation hb
  | renew => exact Marks.within_empty

theorem shared_perform (h : Page.Shared scene.binders scene.page alone)
    (hcourteous : step.Courteous) :
    Page.Shared (scene.perform step).1.binders (scene.perform step).1.page
      (step.touchOf alone) := by
  rcases perform_cases scene step with ⟨hscene, halone⟩ | ⟨index, b, b', effects, hb, hturns,
    hscene, halone⟩ | ⟨id, call, rfl⟩
  · rw [hscene, halone]
    exact h
  · rw [hscene, halone]
    obtain ⟨hlt, hget⟩ := List.getElem?_eq_some_iff.mp hb
    have hnew : b' ∈ scene.binders.set index b' := List.mem_set hlt b'
    have hwithin := h.within b (List.mem_of_getElem? hb)
    refine Page.shared_performAll h (exchange_of_turns hturns) (covers_of_turns hturns hwithin)
      ?_ (fun ht => ⟨b', hnew, ht⟩) ?_
    · intro other hm
      rcases List.mem_or_eq_of_mem_set hm with hm | rfl
      · exact h.within other hm
      · exact within_of_turns hturns hwithin
    · intro other hm hne
      obtain ⟨i, hi⟩ := List.mem_iff_getElem?.mp hm
      have hne : index ≠ i := by
        rintro rfl
        exact hne (Option.some.inj (hi.symm.trans hb))
      exact List.mem_iff_getElem?.mpr ⟨i, by rw [List.getElem?_set_ne hne, hi]⟩
  · exact Page.shared_touch h hcourteous

theorem length_run : (scene.run steps).binders.length = scene.binders.length := by
  induction steps generalizing scene with
  | nil => rfl
  | cons step steps ih =>
    have hstep : (scene.perform step).1.binders.length = scene.binders.length := by
      rcases perform_cases scene step with ⟨hscene, -⟩ | ⟨index, b, b', effects, -, -, hscene, -⟩ |
        ⟨id, call, rfl⟩
      · rw [hscene]
      · rw [hscene, List.length_set]
      · rfl
    exact ih.trans hstep

theorem shared_run (h : Page.Shared scene.binders scene.page alone)
    (hcourteous : ∀ step ∈ steps, step.Courteous) :
    Page.Shared (scene.run steps).binders (scene.run steps).page (touches alone steps) := by
  induction steps generalizing scene alone with
  | nil => exact h
  | cons step steps ih =>
    have hstep := shared_perform h (hcourteous step List.mem_cons_self)
    exact ih hstep fun later hl => hcourteous later (List.mem_cons_of_mem _ hl)

/-- The binder with a number has no element. -/
def Free (scene : Scene) (index : Nat) : Prop :=
  ∀ b, scene.binders[index]? = some b → b.target = none

/-- The binder with a number has been unbound or dropped, and was bound to no element since. -/
def GivenBack (index : Nat) (steps : List Step) : Prop :=
  ∃ before last after, steps = before ++ last :: after ∧
    (last = .operate index .unbind ∨ last = .renew index) ∧
    ∀ step ∈ after, ∀ config id, step ≠ .operate index (.bind config (some id))

theorem free_perform (h : scene.Free index)
    (hbind : ∀ config id, step ≠ .operate index (.bind config (some id))) :
    (scene.perform step).1.Free index := by
  rcases perform_cases scene step with ⟨hscene, -⟩ | ⟨i, b, b', effects, hb, hturns, hscene, -⟩ |
    ⟨id, call, rfl⟩
  · rw [hscene]
    exact h
  · rw [hscene]
    intro c hc
    by_cases he : i = index
    · subst he
      obtain ⟨hlt, -⟩ := List.getElem?_eq_some_iff.mp hb
      obtain rfl : b' = c := by simpa [hlt] using hc
      cases hturns with
      | operate operation =>
        refine Binder.target_perform_of_none (h b hb) ?_
        rintro config id rfl
        exact hbind config id rfl
      | renew => rfl
    · exact h c (by simpa [List.getElem?_set_ne he] using hc)
  · exact h

theorem free_run (h : scene.Free index)
    (hbind : ∀ step ∈ steps, ∀ config id, step ≠ .operate index (.bind config (some id))) :
    (scene.run steps).Free index := by
  induction steps generalizing scene with
  | nil => exact h
  | cons step steps ih =>
    have hstep := free_perform h (hbind step List.mem_cons_self)
    exact ih hstep fun later hl => hbind later (List.mem_cons_of_mem _ hl)

theorem free_of_last (h : step = .operate index .unbind ∨ step = .renew index) :
    (scene.perform step).1.Free index := by
  intro b hb
  cases hi : scene.binders[index]? with
  | none => rcases h with rfl | rfl <;> simp [perform, hi] at hb
  | some c =>
    obtain ⟨hlt, -⟩ := List.getElem?_eq_some_iff.mp hi
    rcases h with rfl | rfl
    · simp only [perform, hi, List.getElem?_set_self hlt] at hb
      rw [← Option.some.inj hb]
      rfl
    · simp only [perform, hi, List.getElem?_set_self hlt] at hb
      rw [← Option.some.inj hb]

theorem free_of_givenBack (h : GivenBack index steps) : (scene.run steps).Free index := by
  obtain ⟨before, last, after, rfl, hlast, hafter⟩ := h
  have hfree : ((scene.run before).perform last).1.Free index := free_of_last hlast
  rw [run, List.foldl_append, List.foldl_cons]
  exact free_run hfree hafter

/-- What binders do to a page, next to the page by itself. -/
structure Harmless (scene : Scene) (alone : Page) : Prop where
  /-- All but the names of previews is as the page has it. -/
  others : ∀ id, (scene.page.appearance? id).map (·.within Preview.names.others) =
    alone.appearance? id
  /-- A class of a preview is tracked by a binder that has the element. -/
  token : ∀ {id target token}, scene.page.elements[id]? = some target →
    token ∈ target.element.classes → Preview.names.ofClass token = true →
    ∃ b ∈ scene.binders, b.target = some id ∧ b.marks.token = some token
  property : ∀ {id target entry}, scene.page.elements[id]? = some target →
    entry ∈ target.element.style → Preview.names.ofStyle entry.1 = true →
    ∃ b ∈ scene.binders, b.target = some id ∧ entry.1 ∈ b.marks.styleNames
  closed : ∀ id, scene.close.appearance? id = alone.appearance? id

theorem harmless_of_shared (h : Page.Shared scene.binders scene.page alone) :
    scene.Harmless alone := by
  refine ⟨h.beside.others, ?_, ?_, ?_⟩
  · intro id target token ht hm ho
    obtain ⟨-, b, hb, htracks⟩ := h.covered (.token token) ht ho hm
    exact ⟨b, hb, htracks⟩
  · intro id target entry ht hm ho
    obtain ⟨-, b, hb, htracks⟩ := h.covered (.property entry.1) ht ho (List.mem_map_of_mem hm)
    exact ⟨b, hb, htracks⟩
  · exact (Page.shared_drop h).appearance?_of_released (by simp)

/-- Any number of binders do no harm to the page, at any time, and leave nothing behind. -/
theorem harmless_run (count : Nat) (hpage : page.Untouched)
    (hcourteous : ∀ step ∈ steps, step.Courteous) :
    (run ⟨List.replicate count {}, page⟩ steps).Harmless (touches page steps) ∧
      ((∀ index < count, GivenBack index steps) → ∀ id,
        (run ⟨List.replicate count {}, page⟩ steps).page.appearance? id =
          (touches page steps).appearance? id) := by
  have hstart : Page.Shared (Scene.mk (List.replicate count {}) page).binders page page :=
    Page.shared_new count hpage
  have hshared := shared_run hstart hcourteous
  refine ⟨harmless_of_shared hshared, ?_⟩
  intro hback
  apply hshared.appearance?_of_released
  intro b hb
  obtain ⟨index, hi⟩ := List.mem_iff_getElem?.mp hb
  obtain ⟨hlt, -⟩ := List.getElem?_eq_some_iff.mp hi
  rw [length_run, List.length_replicate] at hlt
  exact free_of_givenBack (hback index hlt) b hi

/-- Two binders that write the timing of every family on one element, and let go of it in turn. -/
def sharedElement : List Step :=
  let slide : Config := { kind := .family .slide, duration := .ofNat 1 }
  let fade : Config := { kind := .family .fade, duration := .ofNat 2 }
  [.operate 0 (.bind slide (some 0)), .operate 1 (.bind fade (some 0)), .operate 0 .pause,
    .touch 0 (.addClass "wide"), .operate 0 (.rebind fade), .operate 1 .replay,
    .touch 0 (.setStyle "color" "blue"), .operate 0 .unbind, .renew 1, .operate 1 .pause]

theorem harmless_run_sharedElement :
    twoElements.Untouched ∧ (∀ step ∈ sharedElement, step.Courteous) ∧
      (∀ index < 2, GivenBack index sharedElement) ∧
      (run ⟨List.replicate 2 {}, twoElements⟩ sharedElement).Harmless
        (touches twoElements sharedElement) ∧
      ∀ id, (run ⟨List.replicate 2 {}, twoElements⟩ sharedElement).page.appearance? id =
        (touches twoElements sharedElement).appearance? id := by
  have hcourteous : ∀ step ∈ sharedElement, step.Courteous := by
    simp [sharedElement, Step.Courteous, Names.covers, Names.others, Preview.names, playStateName]
    decide
  have hback : ∀ index < 2, GivenBack index sharedElement := by
    intro index hlt
    obtain rfl | rfl : index = 0 ∨ index = 1 := by omega
    · exact ⟨sharedElement.take 7, .operate 0 .unbind, sharedElement.drop 8, rfl, Or.inl rfl,
        by simp [sharedElement]⟩
    · exact ⟨sharedElement.take 8, .renew 1, sharedElement.drop 9, rfl, Or.inr rfl,
        by simp [sharedElement]⟩
  obtain ⟨hharmless, hleft⟩ := harmless_run 2 untouched_twoElements hcourteous
  exact ⟨untouched_twoElements, hcourteous, hback, hharmless, hleft hback⟩

end Scene
end AnimationKit
