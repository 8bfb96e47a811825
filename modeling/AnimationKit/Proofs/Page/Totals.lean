import AnimationKit.Proofs.Page.Beside
import Mathlib.Algebra.GroupWithZero.Nat

/-!
Counters of elements, summed up over a page: what effects and calls of the page add to a total.
-/
namespace AnimationKit.Page

variable {page alone : Page} {id : ElementId} {call : ElementCall} {effects later before after :
  List Effect} {found found' : PageElement} {counter : Element → Nat}

/-- A counter summed up over all elements. -/
def total (page : Page) (counter : Element → Nat) : Nat :=
  (page.elements.map fun found => counter found.element).sum

/-- All elements take and see every call. -/
def Plain (page : Page) : Prop := ∀ found ∈ page.elements, found.conduct = .plain

/-- A call that leaves a counter alone on any element. -/
def Keeps (counter : Element → Nat) (call : ElementCall) : Prop :=
  ∀ element : Element, counter (element.apply call) = counter element

theorem complies_of_plain (h : page.Plain) : ∀ found ∈ page.elements, found.Complies := by
  intro found hf reason
  rw [h found hf]
  simp

theorem sum_map_set {α : Type} {items : List α} {index : Nat} {old new : α} (f : α → Nat)
    (h : items[index]? = some old) :
    ((items.set index new).map f).sum + f old = (items.map f).sum + f new := by
  induction items generalizing index with
  | nil => simp at h
  | cons first rest ih =>
    cases index with
    | zero =>
      obtain rfl : first = old := by simpa using h
      simp only [List.set_cons_zero, List.map_cons, List.sum_cons]
      omega
    | succ index =>
      have hrest := ih (by simpa using h)
      simp only [List.set_cons_succ, List.map_cons, List.sum_cons]
      omega

theorem perform_plain (hplain : page.Plain) (hf : page.elements[id]? = some found) :
    (page.perform (.call id call)).elements =
      page.elements.set id { found with element := found.element.apply call } := by
  have hconduct := hplain found (List.mem_of_getElem? hf)
  simp [perform, hf, PageElement.take, hconduct]

theorem perform_missing (hf : page.elements[id]? = none) :
    (page.perform (.call id call)).elements = page.elements := by
  simp [perform, hf]

theorem touch_present (hf : page.elements[id]? = some found) :
    (page.touch id call).elements =
      page.elements.set id { found with element := found.element.apply call } := by
  obtain ⟨hlt, hget⟩ := List.getElem?_eq_some_iff.mp hf
  apply List.ext_getElem?
  intro other
  by_cases h : id = other
  · subst h
    simp [touch, hlt, hget]
  · simp [touch, List.getElem?_set_ne h, h]

theorem touch_missing (hf : page.elements[id]? = none) :
    (page.touch id call).elements = page.elements := by
  apply List.ext_getElem?
  intro other
  by_cases h : id = other
  · subst h
    simp [touch, hf]
  · simp [touch, h]

theorem plain_set (h : page.Plain) (hf : found'.conduct = .plain) :
    ∀ other ∈ page.elements.set id found', other.conduct = .plain := by
  intro other hm
  rcases List.mem_or_eq_of_mem_set hm with hm | rfl
  · exact h other hm
  · exact hf

theorem plain_perform (h : page.Plain) (effect : Effect) : (page.perform effect).Plain := by
  cases effect with
  | note note => exact h
  | call id call =>
    unfold Plain
    cases hf : page.elements[id]? with
    | none => rwa [perform_missing hf]
    | some found =>
      rw [perform_plain h hf]
      exact plain_set h (h found (List.mem_of_getElem? hf))

theorem plain_performAll (h : page.Plain) : (page.performAll effects).Plain := by
  induction effects generalizing page with
  | nil => exact h
  | cons effect effects ih => exact ih (plain_perform h effect)

theorem plain_touch (h : page.Plain) : (page.touch id call).Plain := by
  unfold Plain
  cases hf : page.elements[id]? with
  | none => rwa [touch_missing hf]
  | some found =>
    rw [touch_present hf]
    exact plain_set h (h found (List.mem_of_getElem? hf))

theorem length_perform (effect : Effect) :
    (page.perform effect).elements.length = page.elements.length := by
  cases effect with
  | note note => rfl
  | call id call =>
    simp only [perform]
    split <;> simp

theorem length_performAll : (page.performAll effects).elements.length = page.elements.length := by
  induction effects generalizing page with
  | nil => rfl
  | cons effect effects ih => exact ih.trans (length_perform effect)

theorem length_touch : (page.touch id call).elements.length = page.elements.length :=
  List.length_modify _ _ _

theorem performAll_append :
    page.performAll (effects ++ later) = (page.performAll effects).performAll later := by
  simp [performAll]

/-! Totals after effects. -/

theorem total_perform (call : ElementCall) (counter : Element → Nat) (hplain : page.Plain)
    (hf : page.elements[id]? = some found) :
    (page.perform (.call id call)).total counter + counter found.element =
      page.total counter + counter (found.element.apply call) := by
  rw [total, total, perform_plain hplain hf]
  exact sum_map_set (fun found : PageElement => counter found.element) hf

theorem total_touch (call : ElementCall) (counter : Element → Nat)
    (hf : page.elements[id]? = some found) :
    (page.touch id call).total counter + counter found.element =
      page.total counter + counter (found.element.apply call) := by
  rw [total, total, touch_present hf]
  exact sum_map_set (fun found : PageElement => counter found.element) hf

theorem total_performAll_of_keeps (hplain : page.Plain)
    (hkeeps : ∀ id call, .call id call ∈ effects → Keeps counter call) :
    (page.performAll effects).total counter = page.total counter := by
  induction effects generalizing page with
  | nil => rfl
  | cons effect effects ih =>
    have hrest := ih (plain_perform hplain effect)
      fun id call hm => hkeeps id call (List.mem_cons_of_mem _ hm)
    refine hrest.trans ?_
    cases effect with
    | note note => rfl
    | call id call =>
      cases hf : page.elements[id]? with
      | none => rw [total, total, perform_missing hf]
      | some found =>
        have htotal := total_perform call counter hplain hf
        rw [hkeeps id call List.mem_cons_self found.element] at htotal
        omega

/-- Of all effects, one call counts. -/
theorem total_performAll_of_once (hplain : page.Plain)
    (heffects : effects = before ++ .call id call :: after)
    (hbefore : ∀ id call, .call id call ∈ before → Keeps counter call)
    (hafter : ∀ id call, .call id call ∈ after → Keeps counter call)
    (hf : (page.performAll before).elements[id]? = some found)
    (hcounts : counter (found.element.apply call) = counter found.element + 1) :
    (page.performAll effects).total counter = page.total counter + 1 := by
  have hplain' : (page.performAll before).Plain := plain_performAll hplain
  have hcall := total_perform call counter hplain' hf
  have hlast := total_performAll_of_keeps (plain_perform hplain' (.call id call)) hafter
  have hfirst := total_performAll_of_keeps hplain hbefore
  have hsplit : page.performAll effects =
      ((page.performAll before).perform (.call id call)).performAll after := by
    rw [heffects, performAll_append]
    rfl
  rw [hsplit]
  omega

/-! Calls of the page count on the page by itself as they do with an owner's work on it. -/

/-- A call adds as much on an element with an owner's part as on one without. -/
def CountsAlike (names : Names) (counter : Element → Nat) (call : ElementCall) : Prop :=
  ∀ element element' : Element, element.appearance.within names.others = element'.appearance →
    counter (element.apply call) + counter element' =
      counter element + counter (element'.apply call)

theorem countsAlike_animationStarts {names : Names} (hc : names.others.covers call = true) :
    CountsAlike names Element.animationStarts call := by
  intro element element' happearance
  cases call with
  | addClass token =>
    have howned : names.others.ofClass token = true := hc
    have hclasses : element.classes.filter names.others.ofClass = element'.classes :=
      congrArg Appearance.classes happearance
    have hmem : token ∈ element'.classes ↔ token ∈ element.classes := by
      rw [← hclasses, List.mem_filter]
      exact and_iff_left howned
    by_cases hm : token ∈ element.classes
    · simp [Element.apply, hm, hmem]
    · simp [Element.apply, hm, hmem]
      omega
  | _ => rfl

theorem countsAlike_reflows {names : Names} (call : ElementCall) :
    CountsAlike names Element.reflows call := by
  intro element element' _
  cases call with
  | addClass token =>
    by_cases hm : token ∈ element.classes <;> by_cases hm' : token ∈ element'.classes <;>
      simp [Element.apply, hm, hm']
  | reflow =>
    simp only [Element.apply]
    omega
  | _ => rfl

theorem total_touch_beside {names : Names} (id : ElementId) (h : Beside names page alone)
    (halike : CountsAlike names counter call) :
    (page.touch id call).total counter + alone.total counter =
      page.total counter + (alone.touch id call).total counter := by
  have hothers := h.others id
  cases hf : page.elements[id]? with
  | none =>
    have hf' : alone.elements[id]? = none := by
      rw [appearance?, appearance?, hf] at hothers
      exact Option.map_eq_none_iff.mp hothers.symm
    rw [total, touch_missing hf, total, total, total, touch_missing hf']
  | some found =>
    obtain ⟨found', hf', happearance⟩ : ∃ found', alone.elements[id]? = some found' ∧
        found.appearance.within names.others = found'.appearance := by
      simp only [appearance?, hf, Option.map_some] at hothers
      obtain ⟨found', hf', he⟩ := Option.map_eq_some_iff.mp hothers.symm
      exact ⟨found', hf', he.symm⟩
    have hpage := total_touch call counter hf
    have halone := total_touch call counter hf'
    have hcall := halike found.element found'.element happearance
    omega

end AnimationKit.Page
