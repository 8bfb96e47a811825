import AnimationKit.Proofs.Page.InlineStyle

/-! What is seen of an element, and which part of it belongs to one owner of names. -/
namespace AnimationKit

/-- The classes and the inline style of an element, without its counters. -/
structure Appearance where
  classes : List String
  style : InlineStyle
deriving DecidableEq

def Element.appearance (element : Element) : Appearance := ⟨element.classes, element.style⟩

/-- The names of classes and of properties that belong to one owner. -/
structure Names where
  ofClass : String → Bool
  ofStyle : String → Bool

namespace Names

/-- The names that everybody else has. -/
def others (names : Names) : Names :=
  ⟨fun token => !names.ofClass token, fun name => !names.ofStyle name⟩

/-- A call that stays within the names. A flush touches none, so it stays within any. -/
def covers (names : Names) : ElementCall → Bool
  | .addClass token | .removeClass token => names.ofClass token
  | .setStyle name _ | .removeStyle name => names.ofStyle name
  | .reflow => true

end Names

namespace Appearance

variable {a : Appearance} {names : Names} {call : ElementCall} {calls : List ElementCall}

def empty : Appearance := ⟨[], []⟩

def apply (a : Appearance) : ElementCall → Appearance
  | .addClass token => if token ∈ a.classes then a else { a with classes := a.classes ++ [token] }
  | .removeClass token => { a with classes := a.classes.filter fun c => c != token }
  | .setStyle name value => { a with style := a.style.set name value }
  | .removeStyle name => { a with style := a.style.remove name }
  | .reflow => a

def applyAll (a : Appearance) (calls : List ElementCall) : Appearance := calls.foldl apply a

/-- The part with an owner's names. -/
def within (a : Appearance) (names : Names) : Appearance :=
  ⟨a.classes.filter names.ofClass, a.style.keep names.ofStyle⟩

@[simp] theorem applyAll_nil : a.applyAll [] = a := rfl

@[simp] theorem applyAll_cons : a.applyAll (call :: calls) = (a.apply call).applyAll calls := rfl

@[simp] theorem applyAll_append {later : List ElementCall} :
    a.applyAll (calls ++ later) = (a.applyAll calls).applyAll later := by
  simp [applyAll]

theorem ascending_apply (h : a.style.Ascending) : (a.apply call).style.Ascending := by
  cases call with
  | addClass token =>
    by_cases hm : token ∈ a.classes
    · simpa [apply, hm] using h
    · simpa [apply, hm] using h
  | removeClass token => exact h
  | setStyle name value => exact InlineStyle.ascending_set h
  | removeStyle name => exact InlineStyle.ascending_remove h
  | reflow => exact h

theorem ascending_applyAll (h : a.style.Ascending) : (a.applyAll calls).style.Ascending := by
  induction calls generalizing a with
  | nil => exact h
  | cons call calls ih => exact ih (ascending_apply h)

/-- An owner's part goes along with the calls within the names. -/
theorem within_apply_of_covers (h : a.style.Ascending) (hc : names.covers call = true) :
    (a.apply call).within names = (a.within names).apply call := by
  cases call with
  | addClass token =>
    have hc : names.ofClass token = true := hc
    by_cases hm : token ∈ a.classes <;> simp [apply, within, hm, hc]
  | removeClass token => simp [apply, within, List.filter_filter, Bool.and_comm]
  | setStyle name value => simp [apply, within, InlineStyle.keep_set_of_own h hc]
  | removeStyle name => simp [apply, within, InlineStyle.keep_remove]
  | reflow => rfl

/-- Calls within everybody else's names leave an owner's part alone. -/
theorem within_apply_of_others (hc : names.others.covers call = true) :
    (a.apply call).within names = a.within names := by
  cases call with
  | addClass token =>
    have hc : names.ofClass token = false := by simpa [Names.others, Names.covers] using hc
    by_cases hm : token ∈ a.classes <;> simp [apply, within, hm, hc]
  | removeClass token =>
    have hc : names.ofClass token = false := by simpa [Names.others, Names.covers] using hc
    have hne : ∀ c, names.ofClass c = true → c ≠ token := by
      intro c h he
      rw [he, hc] at h
      exact Bool.noConfusion h
    simp only [apply, within, List.filter_filter, Appearance.mk.injEq, and_true]
    apply List.filter_congr
    intro c _
    cases h : names.ofClass c with
    | false => rfl
    | true => simp [hne c h]
  | setStyle name value =>
    have hc : names.ofStyle name = false := by simpa [Names.others, Names.covers] using hc
    simp [apply, within, InlineStyle.keep_set_of_not_own hc]
  | removeStyle name =>
    have hc : names.ofStyle name = false := by simpa [Names.others, Names.covers] using hc
    simp [apply, within, InlineStyle.keep_remove_of_not_own hc]
  | reflow => rfl

theorem within_applyAll_of_covers (h : a.style.Ascending)
    (hc : ∀ call ∈ calls, names.covers call = true) :
    (a.applyAll calls).within names = (a.within names).applyAll calls := by
  induction calls generalizing a with
  | nil => rfl
  | cons call calls ih =>
    rw [applyAll_cons, applyAll_cons,
      ih (ascending_apply h) fun c hm => hc c (List.mem_cons_of_mem _ hm),
      within_apply_of_covers h (hc call List.mem_cons_self)]

theorem within_applyAll_of_others (hc : ∀ call ∈ calls, names.others.covers call = true) :
    (a.applyAll calls).within names = a.within names := by
  induction calls generalizing a with
  | nil => rfl
  | cons call calls ih =>
    rw [applyAll_cons, ih fun c hm => hc c (List.mem_cons_of_mem _ hm),
      within_apply_of_others (hc call List.mem_cons_self)]

@[simp] theorem others_others : names.others.others = names := by
  simp [Names.others]

/-- Where an owner has nothing, all that is seen belongs to the others. -/
theorem within_others_of_within_empty (h : a.within names = empty) : a.within names.others = a := by
  have hclasses : a.classes.filter names.ofClass = [] := congrArg classes h
  have hstyle : a.style.keep names.ofStyle = [] := congrArg style h
  have hc : a.classes.filter names.others.ofClass = a.classes := by
    simpa [Names.others, List.filter_eq_nil_iff] using hclasses
  have hs : a.style.keep names.others.ofStyle = a.style := by
    simpa [Names.others, InlineStyle.keep, List.filter_eq_nil_iff] using hstyle
  simp [within, hc, hs]

end Appearance

theorem Element.appearance_apply (element : Element) (call : ElementCall) :
    (element.apply call).appearance = element.appearance.apply call := by
  cases call with
  | addClass token =>
    by_cases hm : token ∈ element.classes <;>
      simp [Element.apply, Element.appearance, Appearance.apply, hm]
  | _ => rfl

end AnimationKit
