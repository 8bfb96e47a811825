import AnimationKit.Page.Element
import Mathlib.Data.List.Induction

/-! Inline styles as ascending lists: what a write and a removal do to the names of one owner. -/
namespace AnimationKit.InlineStyle

variable {style rest : InlineStyle} {first entry : String × String} {name value value' : String}
  {own : String → Bool} {entries : List (String × String)}

/-- Names ascend strictly, so no property stands there twice. -/
def Ascending (style : InlineStyle) : Prop := style.Pairwise fun a b => a.1 < b.1

/-- The properties whose names belong to an owner. -/
def keep (own : String → Bool) (style : InlineStyle) : InlineStyle :=
  style.filter fun entry => own entry.1

/-- The style that comes of setting some properties on an element without any. -/
def ofList (entries : List (String × String)) : InlineStyle :=
  entries.foldl (fun style entry => style.set entry.1 entry.2) []

theorem name_trichotomy (a b : String) : a < b ∨ a = b ∨ b < a := by
  by_cases hab : a < b
  · exact Or.inl hab
  · by_cases hba : b < a
    · exact Or.inr (Or.inr hba)
    · exact Or.inr (Or.inl (String.le_antisymm (String.not_lt.mp hba) (String.not_lt.mp hab)))

theorem set_cons_of_lt (h : name < first.1) :
    set name value (first :: rest) = (name, value) :: first :: rest := by
  simp [set, h]

theorem set_cons_of_eq (h : name = first.1) :
    set name value (first :: rest) = (name, value) :: rest := by
  rw [set, if_neg (h ▸ String.lt_irrefl _), if_pos h]

theorem set_cons_of_gt (h : first.1 < name) :
    set name value (first :: rest) = first :: set name value rest := by
  have hne : name ≠ first.1 := fun he => String.lt_irrefl name (he ▸ h)
  simp [set, String.lt_asymm h, hne]

@[simp] theorem mem_keep : entry ∈ style.keep own ↔ entry ∈ style ∧ own entry.1 = true := by
  simp [keep]

theorem keep_cons_of_own (h : own first.1 = true) :
    keep own (first :: rest) = first :: keep own rest := by
  simp [keep, h]

theorem keep_cons_of_not_own (h : own first.1 = false) :
    keep own (first :: rest) = keep own rest := by
  simp [keep, h]

theorem mem_of_mem_set (h : entry ∈ style.set name value) :
    entry = (name, value) ∨ entry ∈ style := by
  induction style with
  | nil => simpa [set] using h
  | cons first rest ih =>
    rcases name_trichotomy name first.1 with hn | hn | hn
    · rw [set_cons_of_lt hn] at h
      exact List.mem_cons.mp h
    · rw [set_cons_of_eq hn] at h
      exact (List.mem_cons.mp h).imp_right (List.mem_cons_of_mem _)
    · rw [set_cons_of_gt hn] at h
      rcases List.mem_cons.mp h with h | h
      · exact Or.inr (h ▸ List.mem_cons_self)
      · exact (ih h).imp_right (List.mem_cons_of_mem _)

theorem mem_set_iff (h : style.Ascending) :
    entry ∈ style.set name value ↔ entry = (name, value) ∨ entry ∈ style ∧ entry.1 ≠ name := by
  induction style with
  | nil => simp [set]
  | cons first rest ih =>
    rw [Ascending, List.pairwise_cons] at h
    obtain ⟨hfirst, hrest⟩ := h
    rcases name_trichotomy name first.1 with hlt | heq | hgt
    · have hne : ∀ entry ∈ first :: rest, entry.1 ≠ name := by
        rw [List.forall_mem_cons]
        refine ⟨fun he => String.lt_irrefl _ (he ▸ hlt), fun entry hm he => ?_⟩
        exact String.lt_irrefl _ (he ▸ String.lt_trans hlt (hfirst entry hm))
      rw [set_cons_of_lt hlt, List.mem_cons (b := (name, value))]
      exact or_congr_right ⟨fun hm => ⟨hm, hne entry hm⟩, And.left⟩
    · have hne : ∀ entry ∈ rest, entry.1 ≠ name := by
        rintro entry hm rfl
        exact String.lt_irrefl _ (heq ▸ hfirst entry hm)
      rw [set_cons_of_eq heq, List.mem_cons, List.mem_cons]
      refine or_congr_right ⟨fun hm => ⟨Or.inr hm, hne entry hm⟩, ?_⟩
      rintro ⟨rfl | hm, hname⟩
      · exact (hname heq.symm).elim
      · exact hm
    · have hne : first.1 ≠ name := fun he => String.lt_irrefl _ (he ▸ hgt)
      rw [set_cons_of_gt hgt, List.mem_cons, List.mem_cons, ih hrest]
      constructor
      · rintro (rfl | heq | ⟨hm, hname⟩)
        · exact Or.inr ⟨Or.inl rfl, hne⟩
        · exact Or.inl heq
        · exact Or.inr ⟨Or.inr hm, hname⟩
      · rintro (heq | ⟨rfl | hm, hname⟩)
        · exact Or.inr (Or.inl heq)
        · exact Or.inl rfl
        · exact Or.inr (Or.inr ⟨hm, hname⟩)

theorem mem_of_mem_remove (h : entry ∈ style.remove name) : entry ∈ style ∧ entry.1 ≠ name := by
  simpa [remove] using h

theorem ascending_set (h : style.Ascending) : (style.set name value).Ascending := by
  induction style with
  | nil => simp [set, Ascending]
  | cons first rest ih =>
    obtain ⟨hfirst, hrest⟩ := List.pairwise_cons.mp h
    rcases name_trichotomy name first.1 with hn | hn | hn
    · rw [set_cons_of_lt hn]
      refine List.pairwise_cons.mpr ⟨?_, h⟩
      intro entry he
      rcases List.mem_cons.mp he with he | he
      · rw [he]; exact hn
      · exact String.lt_trans hn (hfirst entry he)
    · rw [set_cons_of_eq hn]
      exact List.pairwise_cons.mpr ⟨fun entry he => hn ▸ hfirst entry he, hrest⟩
    · rw [set_cons_of_gt hn]
      refine List.pairwise_cons.mpr ⟨?_, ih hrest⟩
      intro entry he
      rcases mem_of_mem_set he with he | he
      · rw [he]; exact hn
      · exact hfirst entry he

theorem ascending_remove (h : style.Ascending) : (style.remove name).Ascending := h.filter _

/-- A name before all others goes to the front. -/
theorem set_of_forall_lt (h : ∀ entry ∈ style, name < entry.1) :
    style.set name value = (name, value) :: style := by
  cases style with
  | nil => rfl
  | cons first rest => exact set_cons_of_lt (h first List.mem_cons_self)

/-- An owner's properties follow a write to one of them. The order of names is needed: a write
stops at the first greater name, whoever owns that. -/
theorem keep_set_of_own (h : style.Ascending) (hn : own name = true) :
    (style.set name value).keep own = (style.keep own).set name value := by
  induction style with
  | nil => simp [set, keep, hn]
  | cons first rest ih =>
    obtain ⟨hfirst, hrest⟩ := List.pairwise_cons.mp h
    rcases name_trichotomy name first.1 with hlt | heq | hgt
    · have hall : ∀ entry ∈ keep own (first :: rest), name < entry.1 := by
        intro entry he
        rcases List.mem_cons.mp (mem_keep.mp he).1 with he | he
        · rw [he]; exact hlt
        · exact String.lt_trans hlt (hfirst entry he)
      rw [set_of_forall_lt hall, set_cons_of_lt hlt, keep_cons_of_own hn]
    · have ho : own first.1 = true := heq ▸ hn
      rw [set_cons_of_eq heq, keep_cons_of_own hn, keep_cons_of_own ho, set_cons_of_eq heq]
    · rw [set_cons_of_gt hgt]
      cases ho : own first.1 with
      | false => rw [keep_cons_of_not_own ho, keep_cons_of_not_own ho, ih hrest]
      | true => rw [keep_cons_of_own ho, keep_cons_of_own ho, ih hrest, set_cons_of_gt hgt]

/-- A write to somebody else's property does not show. -/
theorem keep_set_of_not_own (hn : own name = false) :
    (style.set name value).keep own = style.keep own := by
  induction style with
  | nil => simp [set, keep, hn]
  | cons first rest ih =>
    rcases name_trichotomy name first.1 with hlt | heq | hgt
    · rw [set_cons_of_lt hlt, keep_cons_of_not_own hn]
    · have ho : own first.1 = false := heq ▸ hn
      rw [set_cons_of_eq heq, keep_cons_of_not_own hn, keep_cons_of_not_own ho]
    · rw [set_cons_of_gt hgt]
      cases ho : own first.1 with
      | false => rw [keep_cons_of_not_own ho, keep_cons_of_not_own ho, ih]
      | true => rw [keep_cons_of_own ho, keep_cons_of_own ho, ih]

theorem keep_remove : (style.remove name).keep own = (style.keep own).remove name := by
  simp [keep, remove, List.filter_filter, Bool.and_comm]

theorem remove_of_forall_ne (h : ∀ entry ∈ style, entry.1 ≠ name) : style.remove name = style := by
  simpa [remove, List.filter_eq_self] using h

theorem keep_remove_of_not_own (hn : own name = false) :
    (style.remove name).keep own = style.keep own := by
  rw [keep_remove]
  apply remove_of_forall_ne
  intro entry he heq
  have ho := (mem_keep.mp he).2
  rw [heq, hn] at ho
  exact Bool.noConfusion ho

theorem remove_set : (style.set name value).remove name = style.remove name := by
  induction style with
  | nil => simp [set, remove]
  | cons first rest ih =>
    rcases name_trichotomy name first.1 with hlt | heq | hgt
    · rw [set_cons_of_lt hlt]
      simp [remove]
    · rw [set_cons_of_eq heq]
      simp [remove, heq]
    · rw [set_cons_of_gt hgt]
      simp only [remove, List.filter_cons] at ih ⊢
      rw [ih]

theorem set_set : (style.set name value).set name value' = style.set name value' := by
  induction style with
  | nil => exact set_cons_of_eq rfl
  | cons first rest ih =>
    rcases name_trichotomy name first.1 with hlt | heq | hgt
    · rw [set_cons_of_lt hlt, set_cons_of_lt hlt]
      exact set_cons_of_eq rfl
    · rw [set_cons_of_eq heq, set_cons_of_eq heq]
      exact set_cons_of_eq rfl
    · rw [set_cons_of_gt hgt, set_cons_of_gt hgt, set_cons_of_gt hgt, ih]

theorem set_perm (h : ∀ entry ∈ style, entry.1 ≠ name) :
    (style.set name value).Perm ((name, value) :: style) := by
  induction style with
  | nil => exact List.Perm.refl _
  | cons first rest ih =>
    rcases name_trichotomy name first.1 with hlt | heq | hgt
    · rw [set_cons_of_lt hlt]
    · exact (h first List.mem_cons_self heq.symm).elim
    · rw [set_cons_of_gt hgt]
      have ih := ih fun entry he => h entry (List.mem_cons_of_mem _ he)
      exact (ih.cons first).trans (List.Perm.swap _ _ _)

theorem ofList_append_singleton :
    ofList (entries ++ [entry]) = (ofList entries).set entry.1 entry.2 := by
  simp [ofList, List.foldl_append]

theorem mem_of_mem_ofList (h : entry ∈ ofList entries) : entry ∈ entries := by
  induction entries using List.reverseRecOn with
  | nil => exact h
  | append_singleton entries last ih =>
    rw [ofList_append_singleton] at h
    rcases mem_of_mem_set h with h | h
    · simp [h]
    · exact List.mem_append_left _ (ih h)

/-- Properties of different names are all there, and nothing else is. -/
theorem ofList_perm (h : (entries.map (·.1)).Nodup) : (ofList entries).Perm entries := by
  induction entries using List.reverseRecOn with
  | nil => exact List.Perm.refl _
  | append_singleton entries last ih =>
    rw [List.map_append, List.nodup_append] at h
    obtain ⟨hentries, -, hlast⟩ := h
    rw [ofList_append_singleton]
    have hne : ∀ entry ∈ ofList entries, entry.1 ≠ last.1 := by
      intro entry he
      exact hlast _ (List.mem_map_of_mem (mem_of_mem_ofList he)) _ (by simp)
    exact ((set_perm hne).trans ((ih hentries).cons _)).trans (List.perm_append_singleton _ _).symm

end AnimationKit.InlineStyle
