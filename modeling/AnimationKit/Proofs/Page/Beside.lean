import AnimationKit.Proofs.Page.Calls

/-! A page on which an owner of names works, beside the page as it would be without that owner. -/
namespace AnimationKit.Page

variable {names : Names} {page alone : Page} {id : ElementId}

/-- All but an owner's names is on each element as it is on the other page. -/
structure Beside (names : Names) (page alone : Page) : Prop where
  ascending : ∀ {id a}, page.appearance? id = some a → a.style.Ascending
  others : ∀ id, (page.appearance? id).map (·.within names.others) = alone.appearance? id

/-- Where the owner has nothing, the pages look the same. -/
theorem Beside.appearance?_of_empty (h : Beside names page alone)
    (hempty : ∀ a, page.appearance? id = some a → a.within names = .empty) :
    page.appearance? id = alone.appearance? id := by
  rw [← h.others]
  cases ha : page.appearance? id with
  | none => rfl
  | some a => exact congrArg some (Appearance.within_others_of_within_empty (hempty a ha)).symm

theorem beside_self
    (h : ∀ {id a}, page.appearance? id = some a → a.style.Ascending ∧ a.within names = .empty) :
    Beside names page page := by
  refine ⟨fun ha => (h ha).1, ?_⟩
  intro id
  cases ha : page.appearance? id with
  | none => rfl
  | some a => exact congrArg some (Appearance.within_others_of_within_empty (h ha).2)

/-- The owner goes on with its work. -/
theorem beside_performAll {effects : List Effect} (h : Beside names page alone)
    (hcovers : ∀ id, ∀ call ∈ callsTo id effects, names.covers call = true) :
    Beside names (page.performAll effects) alone := by
  constructor
  · intro id a ha
    obtain ⟨after, hafter, rfl⟩ := appearance?_eq_some ha
    rw [getElem?_performAll] at hafter
    obtain ⟨target, ht, rfl⟩ := Option.map_eq_some_iff.mp hafter
    have hbefore : target.appearance.style.Ascending :=
      h.ascending (Option.map_eq_some_iff.mpr ⟨target, ht, rfl⟩)
    by_cases hcomplies : target.Complies
    · rw [PageElement.appearance_takeAll hcomplies]
      exact Appearance.ascending_applyAll hbefore
    · rw [PageElement.takeAll_of_not_complies hcomplies]
      exact hbefore
  · intro id
    rw [map_within_performAll hcovers]
    exact h.others id

/-- Both pages get a call that the owner does not care about. -/
theorem beside_touch {element : ElementId} {call : ElementCall} (h : Beside names page alone)
    (hc : names.others.covers call = true) :
    Beside names (page.touch element call) (alone.touch element call) := by
  constructor
  · intro id a ha
    rw [appearance?_touch] at ha
    obtain ⟨before, hbefore, rfl⟩ := Option.map_eq_some_iff.mp ha
    split
    · exact Appearance.ascending_apply (h.ascending hbefore)
    · exact h.ascending hbefore
  · intro id
    rw [appearance?_touch, appearance?_touch, ← h.others, Option.map_map, Option.map_map]
    cases ha : page.appearance? id with
    | none => rfl
    | some a =>
      have happly := Appearance.within_apply_of_covers (h.ascending ha) hc
      by_cases he : element = id <;> simp [he, happly]

end AnimationKit.Page
