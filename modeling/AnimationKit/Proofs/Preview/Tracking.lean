import AnimationKit.Proofs.Preview.Operation

/-! What an operation leaves on an element, what it takes away, and what a binder tracks of it. -/
namespace AnimationKit

/-- One thing that may be on an element. -/
inductive Trace where
  | token (token : String)
  | property (name : String)

def Names.owns (names : Names) : Trace → Bool
  | .token token => names.ofClass token
  | .property name => names.ofStyle name

def ElementCall.writes? : ElementCall → Option Trace
  | .addClass token => some (.token token)
  | .setStyle name _ => some (.property name)
  | .removeClass _ | .removeStyle _ | .reflow => none

def ElementCall.erases? : ElementCall → Option Trace
  | .removeClass token => some (.token token)
  | .removeStyle name => some (.property name)
  | .addClass _ | .setStyle _ _ | .reflow => none

namespace Appearance

variable {a : Appearance} {names : Names} {trace : Trace} {call : ElementCall}
  {calls : List ElementCall}

def Bears (a : Appearance) : Trace → Prop
  | .token token => token ∈ a.classes
  | .property name => name ∈ a.style.map (·.1)

/-- Whatever is there was written just now, or was there before and not erased. -/
theorem bears_apply (h : (a.apply call).Bears trace) :
    call.writes? = some trace ∨ a.Bears trace ∧ call.erases? ≠ some trace := by
  cases call with
  | addClass token =>
    cases trace with
    | token t =>
      by_cases hm : token ∈ a.classes
      · right
        exact ⟨by simpa [apply, Bears, hm] using h, by simp [ElementCall.erases?]⟩
      · have h : t ∈ a.classes ∨ t = token := by simpa [apply, Bears, hm] using h
        rcases h with h | rfl
        · exact Or.inr ⟨h, by simp [ElementCall.erases?]⟩
        · exact Or.inl rfl
    | property name =>
      right
      refine ⟨?_, by simp [ElementCall.erases?]⟩
      by_cases hm : token ∈ a.classes <;> simpa [apply, Bears, hm] using h
  | removeClass token =>
    right
    cases trace with
    | token t =>
      have h : t ∈ a.classes ∧ t ≠ token := by simpa [apply, Bears] using h
      exact ⟨h.1, by simpa [ElementCall.erases?] using h.2.symm⟩
    | property name => exact ⟨h, by simp [ElementCall.erases?]⟩
  | setStyle name value =>
    cases trace with
    | token t => exact Or.inr ⟨h, by simp [ElementCall.erases?]⟩
    | property n =>
      obtain ⟨entry, he, rfl⟩ := List.mem_map.mp h
      rcases InlineStyle.mem_of_mem_set he with rfl | he
      · exact Or.inl rfl
      · exact Or.inr ⟨List.mem_map_of_mem he, by simp [ElementCall.erases?]⟩
  | removeStyle name =>
    right
    cases trace with
    | token t => exact ⟨h, by simp [ElementCall.erases?]⟩
    | property n =>
      obtain ⟨entry, he, rfl⟩ := List.mem_map.mp h
      obtain ⟨he, hne⟩ := InlineStyle.mem_of_mem_remove he
      exact ⟨List.mem_map_of_mem he, by simpa [ElementCall.erases?] using hne.symm⟩
  | reflow => exact Or.inr ⟨h, by simp [ElementCall.erases?]⟩

theorem bears_applyAll (h : (a.applyAll calls).Bears trace) :
    (∃ call ∈ calls, call.writes? = some trace) ∨
      a.Bears trace ∧ ∀ call ∈ calls, call.erases? ≠ some trace := by
  induction calls generalizing a with
  | nil => exact Or.inr ⟨h, by simp⟩
  | cons call calls ih =>
    rcases ih h with ⟨later, hl, hw⟩ | ⟨hb, he⟩
    · exact Or.inl ⟨later, List.mem_cons_of_mem _ hl, hw⟩
    · rcases bears_apply hb with hw | ⟨hb, hn⟩
      · exact Or.inl ⟨call, List.mem_cons_self, hw⟩
      · exact Or.inr ⟨hb, List.forall_mem_cons.mpr ⟨hn, he⟩⟩

/-- Where an owner has no trace, it has no part. -/
theorem within_empty_of_bears (h : ∀ trace, names.owns trace = true → ¬ a.Bears trace) :
    a.within names = empty := by
  have hclasses : a.classes.filter names.ofClass = [] :=
    List.filter_eq_nil_iff.mpr fun token hm ho => h (.token token) ho hm
  have hstyle : a.style.keep names.ofStyle = [] :=
    List.filter_eq_nil_iff.mpr fun entry hm ho => h (.property entry.1) ho (List.mem_map_of_mem hm)
  rw [within, hclasses, hstyle, empty]

theorem bears_within (ho : names.owns trace = true) :
    (a.within names).Bears trace ↔ a.Bears trace := by
  cases trace with
  | token token =>
    have ho : names.ofClass token = true := ho
    simp [within, Bears, ho]
  | property name =>
    have ho : names.ofStyle name = true := ho
    constructor
    · intro hb
      obtain ⟨entry, he, rfl⟩ := List.mem_map.mp hb
      exact List.mem_map_of_mem (List.mem_filter.mp he).1
    · intro hb
      obtain ⟨entry, he, rfl⟩ := List.mem_map.mp hb
      exact List.mem_map_of_mem (List.mem_filter.mpr ⟨he, ho⟩)

theorem not_bears_of_within_empty (h : a.within names = empty) (ho : names.owns trace = true) :
    ¬ a.Bears trace := by
  rw [← bears_within ho, h]
  cases trace <;> simp [Bears, empty]

end Appearance

def Marks.Records (marks : Marks) : Trace → Prop
  | .token token => marks.token = some token
  | .property name => name ∈ marks.styleNames

namespace Binder

variable {b : Binder} {config : Config} {id : ElementId} {trace : Trace}

/-- The binder knows that it has to take this off the element again. -/
def Tracks (b : Binder) (id : ElementId) (trace : Trace) : Prop :=
  b.target = some id ∧ b.marks.Records trace

/-- Calls that turn one binder into another on an element: all that they write is tracked by the
new one, and what only the old one tracked is erased. -/
structure Exchange (b b' : Binder) (id : ElementId) (calls : List ElementCall) : Prop where
  written : ∀ {call trace}, call ∈ calls → call.writes? = some trace → b'.Tracks id trace
  erased : ∀ {trace}, b.Tracks id trace →
    b'.Tracks id trace ∨ ∃ call ∈ calls, call.erases? = some trace

theorem not_tracks_of_target_none (ht : b.target = none) : ¬ b.Tracks id trace := by
  intro h
  simp [h.1] at ht

theorem exchange_refl : b.Exchange b id [] :=
  ⟨fun hc => (List.not_mem_nil hc).elim, Or.inl⟩

/-- Letting go erases all that is tracked, and from nothing anything may follow. -/
theorem exchange_release_append {b' : Binder} {calls : List ElementCall}
    (hwritten : ∀ {call trace}, call ∈ calls → call.writes? = some trace → b'.Tracks id trace) :
    b.Exchange b' id (callsTo id b.release.effects ++ calls) := by
  constructor
  · intro call trace hc hw
    rcases List.mem_append.mp hc with hc | hc
    · rw [callsTo_release, Marks.removal_eq] at hc
      split at hc
      · rcases List.mem_append.mp hc with hc | hc <;>
          obtain ⟨name, -, rfl⟩ := List.mem_map.mp hc <;>
          simp [ElementCall.writes?] at hw
      · simp at hc
    · exact hwritten hc hw
  · intro trace ht
    right
    rw [callsTo_release, if_pos ht.1, Marks.removal_eq]
    cases trace with
    | token token =>
      have hm : b.marks.token = some token := ht.2
      exact ⟨.removeClass token, by simp [hm], rfl⟩
    | property name =>
      have hm : name ∈ b.marks.styleNames := ht.2
      exact ⟨.removeStyle name, by simp [hm], rfl⟩

theorem exchange_release {b' : Binder} : b.Exchange b' id (callsTo id b.release.effects) := by
  have h : b.Exchange b' id (callsTo id b.release.effects ++ []) :=
    exchange_release_append fun hc => (List.not_mem_nil hc).elim
  rwa [List.append_nil] at h

theorem written_apply {call : ElementCall} (hc : call ∈ callsTo id (b.apply config).effects)
    (hw : call.writes? = some trace) : (b.apply config).state.Tracks id trace := by
  cases ha : Animation.ofConfig config with
  | error cause =>
    rw [callsTo_apply_of_error ha] at hc
    simp at hc
  | ok animation =>
    rw [callsTo_apply_of_ok ha] at hc
    split at hc
    · rename_i htarget
      refine ⟨apply_target.trans htarget, ?_⟩
      rw [apply_of_ok htarget ha]
      rcases List.mem_append.mp hc with hc | hc
      · obtain ⟨entry, he, rfl⟩ := List.mem_map.mp hc
        obtain rfl := Option.some.inj hw
        exact List.mem_append_left _ (List.mem_map_of_mem he)
      · obtain ⟨token, hm, rfl⟩ := List.mem_map.mp hc
        obtain rfl := Option.some.inj hw
        exact Option.mem_toList.mp hm
    · simp at hc

theorem exchange_replay : b.Exchange b.replay.state id (callsTo id b.replay.effects) := by
  cases ht : b.target with
  | none =>
    rw [replay_of_none (Or.inl ht)]
    exact exchange_refl
  | some element =>
    cases hm : b.marks.token with
    | none =>
      rw [replay_of_none (Or.inr hm)]
      exact exchange_refl
    | some token =>
      rw [callsTo_replay ht hm, replay_of_some ht hm, replayCalls]
      constructor
      · intro call trace hc hw
        split at hc
        · rename_i htarget
          have hc : call = .addClass token := by
            split at hc <;> simp at hc <;> rcases hc with rfl | rfl | rfl | rfl <;>
              simp [ElementCall.writes?] at hw ⊢
          subst hc
          obtain rfl := Option.some.inj hw
          exact ⟨htarget, hm⟩
        · simp at hc
      · intro trace htracks
        rw [if_pos htracks.1]
        cases trace with
        | token token => exact Or.inl htracks
        | property name =>
          -- Only the play state is given up, and it is erased first.
          rcases List.mem_append.mp htracks.2 with hn | hn
          · exact Or.inl ⟨htracks.1, List.mem_append_left _ hn⟩
          · right
            split at hn
            · rename_i hp
              obtain rfl := List.mem_singleton.mp hn
              exact ⟨.removeStyle playStateName, by simp [hp], rfl⟩
            · simp at hn

theorem exchange_hold {before after : PreviewState} {value : String} {note : Note} :
    b.Exchange (b.hold before after value note).state id
      (callsTo id (b.hold before after value note).effects) := by
  unfold hold
  split
  · constructor
    · intro call trace hc hw
      simp only [callsTo_append, callsTo_onTarget, callsTo_cons_note, callsTo_nil,
        List.append_nil] at hc
      split at hc
      · rename_i htarget
        obtain rfl := List.mem_singleton.mp hc
        obtain rfl := Option.some.inj hw
        exact ⟨htarget, by simp [Marks.Records, Marks.styleNames]⟩
      · simp at hc
    · intro trace htracks
      refine Or.inl ⟨htracks.1, ?_⟩
      cases trace with
      | token token => exact htracks.2
      | property name =>
        rcases List.mem_append.mp htracks.2 with hn | hn
        · exact List.mem_append_left _ hn
        · apply List.mem_append_right
          split at hn
          · exact hn
          · simp at hn
  · exact exchange_refl

/-- Whatever a binder does, it tracks what it writes and erases what it no longer tracks. -/
theorem exchange_perform (operation : Operation) :
    b.Exchange (b.perform operation).state id (callsTo id (b.perform operation).effects) := by
  cases operation with
  | bind config target =>
    change b.Exchange (b.bind config target).state id (callsTo id (b.bind config target).effects)
    rw [callsTo_bind, bind_state]
    exact exchange_release_append written_apply
  | rebind config =>
    change b.Exchange (b.rebind config).state id (callsTo id (b.rebind config).effects)
    rw [callsTo_rebind, rebind_state]
    exact exchange_release_append written_apply
  | replay => exact exchange_replay
  | pause => exact exchange_hold
  | resume => exact exchange_hold
  | unbind =>
    change b.Exchange b.unbind.state id (callsTo id b.unbind.effects)
    rw [callsTo_unbind]
    exact exchange_release

/-- On an element, what is there after the calls is tracked now, or was there and not the old
binder's to track. -/
theorem Exchange.bears {b' : Binder} {calls : List ElementCall} {a : Appearance}
    (h : b.Exchange b' id calls) (hb : (a.applyAll calls).Bears trace) :
    b'.Tracks id trace ∨ a.Bears trace ∧ ¬ b.Tracks id trace := by
  rcases Appearance.bears_applyAll hb with ⟨call, hc, hw⟩ | ⟨hbefore, hkept⟩
  · exact Or.inl (h.written hc hw)
  · by_cases ht : b.Tracks id trace
    · rcases h.erased ht with ht | ⟨call, hc, he⟩
      · exact Or.inl ht
      · exact (hkept call hc he).elim
    · exact Or.inr ⟨hbefore, ht⟩

end Binder
end AnimationKit
