import AnimationKit.Page.Basic
import AnimationKit.Proofs.Page.Appearance

/-! Pages element by element: each takes the calls addressed to it, in their order. -/
namespace AnimationKit

/-- The calls that an element gets from some effects. -/
def callsTo (id : ElementId) (effects : List Effect) : List ElementCall :=
  effects.filterMap fun
    | .call element call => if element = id then some call else none
    | .note _ => none

section callsTo

variable {id element : ElementId} {effects later : List Effect} {calls : List ElementCall}
  {call : ElementCall}

@[simp] theorem callsTo_nil : callsTo id [] = [] := rfl

@[simp] theorem callsTo_append :
    callsTo id (effects ++ later) = callsTo id effects ++ callsTo id later := by
  simp [callsTo]

@[simp] theorem callsTo_cons_note {note : Note} :
    callsTo id (.note note :: effects) = callsTo id effects := rfl

theorem callsTo_cons_call_self :
    callsTo id (.call id call :: effects) = call :: callsTo id effects := by
  simp [callsTo]

theorem callsTo_cons_call_ne (h : element ≠ id) :
    callsTo id (.call element call :: effects) = callsTo id effects := by
  simp [callsTo, h]

@[simp] theorem callsTo_map_note {notes : List Note} :
    callsTo id (notes.map .note) = [] := by
  induction notes with
  | nil => rfl
  | cons note notes ih => simpa using ih

@[simp] theorem callsTo_map_call :
    callsTo id (calls.map (.call element)) = if element = id then calls else [] := by
  induction calls with
  | nil => simp
  | cons call calls ih =>
    by_cases h : element = id
    · subst h
      rw [if_pos rfl] at ih ⊢
      rw [List.map_cons, callsTo_cons_call_self, ih]
    · rw [if_neg h] at ih ⊢
      rw [List.map_cons, callsTo_cons_call_ne h, ih]

end callsTo

namespace PageElement

variable {target : PageElement} {call : ElementCall} {calls : List ElementCall}

def appearance (target : PageElement) : Appearance := target.element.appearance

/-- It makes the changes that it is asked for. -/
def Complies (target : PageElement) : Prop := ∀ reason, target.conduct ≠ .refusing reason

def takeAll (target : PageElement) (calls : List ElementCall) : PageElement :=
  calls.foldl (fun target call => (target.take call).1) target

@[simp] theorem takeAll_cons :
    target.takeAll (call :: calls) = (target.take call).1.takeAll calls := rfl

theorem conduct_take : (target.take call).1.conduct = target.conduct := by
  unfold take
  split
  · rfl
  · split <;> rfl
  · rfl

theorem complies_take (h : target.Complies) : (target.take call).1.Complies := by
  intro reason
  rw [conduct_take]
  exact h reason

theorem conduct_takeAll : (target.takeAll calls).conduct = target.conduct := by
  induction calls generalizing target with
  | nil => rfl
  | cons call calls ih => rw [takeAll_cons, ih, conduct_take]

theorem appearance_take (h : target.Complies) :
    (target.take call).1.appearance = target.appearance.apply call := by
  unfold take
  split
  · exact Element.appearance_apply _ _
  · split
    · rename_i hr
      rw [hr]
      rfl
    · exact Element.appearance_apply _ _
  · rename_i reason hr
    exact (h reason hr).elim

theorem complies_takeAll (h : target.Complies) : (target.takeAll calls).Complies := by
  intro reason
  rw [conduct_takeAll]
  exact h reason

theorem appearance_takeAll (h : target.Complies) :
    (target.takeAll calls).appearance = target.appearance.applyAll calls := by
  induction calls generalizing target with
  | nil => rfl
  | cons call calls ih =>
    have hn : (target.take call).1.Complies := complies_take h
    rw [takeAll_cons, ih hn, appearance_take h, Appearance.applyAll_cons]

theorem appearance_touched :
    PageElement.appearance { target with element := target.element.apply call } =
      target.appearance.apply call :=
  Element.appearance_apply target.element call

/-- An element that refuses changes stays as it is. -/
theorem takeAll_of_not_complies (h : ¬ target.Complies) : target.takeAll calls = target := by
  unfold Complies at h
  push Not at h
  obtain ⟨reason, hr⟩ := h
  have htake : ∀ call, (target.take call).1 = target := by
    intro call
    simp [take, hr]
  induction calls with
  | nil => rfl
  | cons call calls ih => rw [takeAll_cons, htake, ih]

end PageElement

namespace Page

variable {page : Page} {id element : ElementId} {effects : List Effect} {call : ElementCall}

def appearance? (page : Page) (id : ElementId) : Option Appearance :=
  page.elements[id]?.map PageElement.appearance

theorem appearance?_eq_some {a : Appearance} (h : page.appearance? id = some a) :
    ∃ target, page.elements[id]? = some target ∧ target.appearance = a :=
  Option.map_eq_some_iff.mp h

theorem getElem?_perform (effect : Effect) :
    (page.perform effect).elements[id]? =
      page.elements[id]?.map fun target => target.takeAll (callsTo id [effect]) := by
  cases effect with
  | note note => simp [perform, PageElement.takeAll]
  | call element call =>
    cases ht : page.elements[element]? with
    | none =>
      by_cases h : element = id
      · subst h
        simp [perform, ht]
      · simp [perform, ht, callsTo_cons_call_ne h, PageElement.takeAll]
    | some target =>
      by_cases h : element = id
      · subst h
        have hlt := (List.getElem?_eq_some_iff.mp ht).1
        simp [perform, callsTo_cons_call_self, PageElement.takeAll, hlt]
      · simp [perform, ht, callsTo_cons_call_ne h, PageElement.takeAll, List.getElem?_set_ne h]

theorem getElem?_performAll :
    (page.performAll effects).elements[id]? =
      page.elements[id]?.map fun target => target.takeAll (callsTo id effects) := by
  induction effects generalizing page with
  | nil => simp [performAll, PageElement.takeAll]
  | cons effect effects ih =>
    have hsplit : callsTo id (effect :: effects) = callsTo id [effect] ++ callsTo id effects := by
      rw [← callsTo_append]
      rfl
    rw [performAll, List.foldl_cons]
    change (performAll _ effects).elements[id]? = _
    rw [ih, getElem?_perform, Option.map_map, hsplit]
    simp [PageElement.takeAll, Function.comp_def]

theorem getElem?_touch :
    (page.touch element call).elements[id]? = page.elements[id]?.map fun target =>
      if element = id then { target with element := target.element.apply call } else target := by
  simp only [touch, List.getElem?_modify]
  rfl

theorem appearance?_touch :
    (page.touch element call).appearance? id =
      (page.appearance? id).map fun a => if element = id then a.apply call else a := by
  rw [appearance?, appearance?, getElem?_touch, Option.map_map, Option.map_map]
  apply congrArg (fun f => Option.map f page.elements[id]?)
  funext target
  by_cases h : element = id
  · simp [h, PageElement.appearance_touched]
  · simp [h]

/-- Calls within an owner's names are not seen in what the others have. -/
theorem map_within_performAll {names : Names}
    (hc : ∀ id, ∀ call ∈ callsTo id effects, names.covers call = true) :
    ((page.performAll effects).appearance? id).map (·.within names.others) =
      (page.appearance? id).map (·.within names.others) := by
  rw [appearance?, appearance?, getElem?_performAll, Option.map_map, Option.map_map, Option.map_map]
  apply congrArg (fun f => Option.map f page.elements[id]?)
  funext target
  by_cases hcomplies : target.Complies
  · have hothers : (target.appearance.applyAll (callsTo id effects)).within names.others =
        target.appearance.within names.others :=
      Appearance.within_applyAll_of_others (by simpa using hc id)
    simpa [PageElement.appearance_takeAll hcomplies] using hothers
  · simp [PageElement.takeAll_of_not_complies hcomplies]

/-- What is seen of an owner's names on every element, all of which take their calls. -/
def Shows (names : Names) (page : Page) (share : ElementId → Appearance) : Prop :=
  ∀ id target, page.elements[id]? = some target →
    target.Complies ∧ target.appearance.style.Ascending ∧ target.appearance.within names = share id

theorem shows_performAll {names : Names} {share : ElementId → Appearance}
    (h : page.Shows names share)
    (hc : ∀ id, ∀ call ∈ callsTo id effects, names.covers call = true) :
    (page.performAll effects).Shows names fun id => (share id).applyAll (callsTo id effects) := by
  intro id target ht
  rw [getElem?_performAll] at ht
  obtain ⟨before, hb, rfl⟩ := Option.map_eq_some_iff.mp ht
  obtain ⟨hcomplies, hascending, hshare⟩ := h id before hb
  refine ⟨?_, ?_, ?_⟩
  · exact PageElement.complies_takeAll hcomplies
  · rw [PageElement.appearance_takeAll hcomplies]
    exact Appearance.ascending_applyAll hascending
  · rw [PageElement.appearance_takeAll hcomplies,
      Appearance.within_applyAll_of_covers hascending (hc id), hshare]

theorem shows_performAll_of_nil {names : Names} {share : ElementId → Appearance}
    (h : page.Shows names share) (hcalls : ∀ id, callsTo id effects = []) :
    (page.performAll effects).Shows names share := by
  have hcovers : ∀ id, ∀ call ∈ callsTo id effects, names.covers call = true := by simp [hcalls]
  have hshows := shows_performAll h hcovers
  simpa only [hcalls, Appearance.applyAll_nil] using hshows

/-- What is seen of elements that take their calls, after some effects. -/
theorem appearance?_performAll {names : Names} {share : ElementId → Appearance}
    (h : page.Shows names share) :
    (page.performAll effects).appearance? id =
      (page.appearance? id).map (·.applyAll (callsTo id effects)) := by
  rw [appearance?, appearance?, getElem?_performAll, Option.map_map, Option.map_map]
  apply Option.map_congr
  intro target ht
  exact PageElement.appearance_takeAll (h id target ht).1

theorem shows_touch {names : Names} {share : ElementId → Appearance} (h : page.Shows names share)
    (hc : names.others.covers call = true) : (page.touch element call).Shows names share := by
  intro id target ht
  rw [getElem?_touch] at ht
  obtain ⟨before, hb, rfl⟩ := Option.map_eq_some_iff.mp ht
  obtain ⟨hcomplies, hascending, hshare⟩ := h id before hb
  split
  · rw [PageElement.appearance_touched, Appearance.within_apply_of_others hc]
    exact ⟨hcomplies, Appearance.ascending_apply hascending, hshare⟩
  · exact ⟨hcomplies, hascending, hshare⟩

end Page
end AnimationKit
