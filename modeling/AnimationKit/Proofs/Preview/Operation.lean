import AnimationKit.Preview.Scene
import AnimationKit.Proofs.Page.Calls
import AnimationKit.Proofs.Preview.Names

/-! The operations of a binder: the fields after each, and the calls that an element gets. -/
namespace AnimationKit

/-- The property names that a binder has to take off again. -/
def Marks.styleNames (marks : Marks) : List String :=
  marks.properties ++ if marks.playState then [playStateName] else []

theorem Marks.removal_eq (marks : Marks) :
    marks.removal = marks.token.toList.map .removeClass ++ marks.styleNames.map .removeStyle := by
  unfold removal styleNames
  cases marks.playState <;> simp

/-- All that is remembered has names of previews. -/
def Marks.Within (marks : Marks) : Prop :=
  (∀ token, marks.token = some token → Preview.names.ofClass token = true) ∧
    ∀ name ∈ marks.properties, Preview.names.ofStyle name = true

theorem Marks.within_empty : Marks.Within {} :=
  ⟨by simp, by simp⟩

namespace Binder

variable {b : Binder} {config : Config} {target : Option ElementId} {id : ElementId}

@[simp] theorem callsTo_onTarget {calls : List ElementCall} :
    callsTo id (b.onTarget calls) = if b.target = some id then calls else [] := by
  unfold onTarget
  cases h : b.target <;> simp

@[simp] theorem release_marks (b : Binder) : b.release.state.marks = {} := rfl

@[simp] theorem callsTo_release :
    callsTo id b.release.effects = if b.target = some id then b.marks.removal else [] :=
  callsTo_onTarget

theorem apply_of_target_none (ht : b.target = none) :
    b.apply config = ⟨{ b with state := .unbound }, .unbound, []⟩ := by
  simp [apply, ht]

theorem apply_of_error {cause : AnimationError} (ht : b.target = some id)
    (hc : Animation.ofConfig config = .error cause) :
    b.apply config =
      ⟨{ b with state := .bound }, .bound, [.note (.previewDisabled config.kind cause)]⟩ := by
  simp [apply, ht, hc]

/-- What a binder calls to put a config on its element. -/
def applyCalls (config : Config) : List ElementCall :=
  (Preview.properties config).map (fun entry => .setStyle entry.1 entry.2) ++
    (Preview.token? config).toList.map .addClass

theorem apply_of_ok {animation : Animation} (ht : b.target = some id)
    (hc : Animation.ofConfig config = .ok animation) :
    b.apply config =
      ⟨{ b with
          marks := ⟨Preview.token? config, (Preview.properties config).map (·.1), false⟩
          state := .running },
        .running,
        b.onTarget (applyCalls config) ++
          [.note (.previewBound (Preview.token? config) config.kind)]⟩ := by
  simp [apply, ht, hc, applyCalls]

theorem apply_target : (b.apply config).state.target = b.target := by
  cases ht : b.target with
  | none => rw [apply_of_target_none ht, ← ht]
  | some id =>
    cases hc : Animation.ofConfig config with
    | error cause => rw [apply_of_error ht hc, ← ht]
    | ok animation => rw [apply_of_ok ht hc, ← ht]

theorem callsTo_apply_of_error {cause : AnimationError}
    (hc : Animation.ofConfig config = .error cause) :
    callsTo id (b.apply config).effects = [] := by
  cases ht : b.target with
  | none => simp [apply_of_target_none ht]
  | some element => simp [apply_of_error ht hc]

theorem callsTo_apply_of_ok {animation : Animation}
    (hc : Animation.ofConfig config = .ok animation) :
    callsTo id (b.apply config).effects = if b.target = some id then applyCalls config else [] := by
  cases ht : b.target with
  | none => simp [apply_of_target_none ht]
  | some element => simp [apply_of_ok ht hc, ht]

theorem rebind_state : (b.rebind config).state = (b.release.state.apply config).state := rfl

theorem callsTo_rebind :
    callsTo id (b.rebind config).effects =
      callsTo id b.release.effects ++ callsTo id (b.release.state.apply config).effects :=
  callsTo_append

theorem bind_state :
    (b.bind config target).state =
      ({ b.release.state with target := target }.apply config).state := rfl

theorem callsTo_bind :
    callsTo id (b.bind config target).effects = callsTo id b.release.effects ++
      callsTo id ({ b.release.state with target := target }.apply config).effects :=
  callsTo_append

/-- What is applied depends on the element alone, once a binder has let go. -/
theorem apply_of_released (hm : b.marks = {}) :
    (b.apply config).state.state = (apply { target := b.target } config).state.state ∧
      (b.apply config).state.marks = (apply { target := b.target } config).state.marks ∧
      ∀ id, callsTo id (b.apply config).effects =
        callsTo id (apply { target := b.target } config).effects := by
  cases hb : b.target with
  | none =>
    rw [apply_of_target_none hb, apply_of_target_none rfl]
    exact ⟨rfl, hm, fun _ => rfl⟩
  | some element =>
    cases hc : Animation.ofConfig config with
    | error cause =>
      rw [apply_of_error hb hc, apply_of_error rfl hc]
      exact ⟨rfl, hm, fun _ => rfl⟩
    | ok animation =>
      refine ⟨?_, ?_, ?_⟩
      · rw [apply_of_ok hb hc, apply_of_ok rfl hc]
      · rw [apply_of_ok hb hc, apply_of_ok rfl hc]
      · intro id
        rw [callsTo_apply_of_ok hc, callsTo_apply_of_ok hc, hb]

/-- A binder that is bound comes to what a new one would come to. -/
theorem bind_of_new :
    (b.bind config target).state.state = (apply { target := target } config).state.state ∧
      (b.bind config target).state.marks = (apply { target := target } config).state.marks ∧
      ∀ id, callsTo id (b.bind config target).effects = callsTo id b.release.effects ++
        callsTo id (apply { target := target } config).effects := by
  have hreleased : Binder.marks { b.release.state with target := target } = {} := b.release_marks
  obtain ⟨hstate, hmarks, hcalls⟩ := apply_of_released hreleased
  exact ⟨hstate, hmarks, fun id => callsTo_bind.trans (congrArg _ (hcalls id))⟩

@[simp] theorem callsTo_unbind : callsTo id b.unbind.effects = callsTo id b.release.effects := by
  simp [unbind]

/-- What a binder calls to start its animation over. -/
def replayCalls (marks : Marks) (token : String) : List ElementCall :=
  (if marks.playState then [.removeStyle playStateName] else []) ++
    [.removeClass token, .reflow, .addClass token]

theorem replay_of_some {token : String} (ht : b.target = some id)
    (hm : b.marks.token = some token) :
    b.replay =
      ⟨{ b with
          marks := { b.marks with playState := false }
          state := .running
          replays := b.replays + 1 },
        true,
        b.onTarget (replayCalls b.marks token) ++ [.note (.replayed token (b.replays + 1))]⟩ := by
  simp [replay, ht, hm, replayCalls]

theorem replay_of_none (h : b.target = none ∨ b.marks.token = none) :
    b.replay = ⟨b, false, []⟩ := by
  unfold replay
  split
  · rename_i ht hm
    simp [ht, hm] at h
  · rfl

theorem target_replay : b.replay.state.target = b.target := by
  unfold replay
  split <;> rfl

theorem callsTo_replay {token : String} {element : ElementId} (ht : b.target = some element)
    (hm : b.marks.token = some token) :
    callsTo id b.replay.effects = if b.target = some id then replayCalls b.marks token else [] := by
  simp [replay_of_some ht hm]

theorem hold_of_state {before after : PreviewState} {value : String} {note : Note}
    (hs : b.state = before) (ht : b.target = some id) :
    b.hold before after value note =
      ⟨{ b with marks := { b.marks with playState := true }, state := after }, true,
        b.onTarget [.setStyle playStateName value] ++ [.note note]⟩ := by
  simp [hold, hs, ht]

theorem target_hold {before after : PreviewState} {value : String} {note : Note} :
    (b.hold before after value note).state.target = b.target := by
  unfold hold
  split <;> rfl

theorem callsTo_hold {before after : PreviewState} {value : String} {note : Note}
    {element : ElementId} (hs : b.state = before) (ht : b.target = some element) :
    callsTo id (b.hold before after value note).effects =
      if b.target = some id then [.setStyle playStateName value] else [] := by
  simp [hold_of_state hs ht]

theorem hold_of_not {before after : PreviewState} {value : String} {note : Note}
    (h : b.state ≠ before ∨ b.target = none) :
    b.hold before after value note = ⟨b, false, []⟩ := by
  unfold hold
  rw [if_neg]
  rintro ⟨hs, ht⟩
  rcases h with h | h
  · exact h hs
  · simp [h] at ht

theorem replay_of_refused (h : b.replay.result = false) : b.replay = ⟨b, false, []⟩ := by
  unfold replay at h ⊢
  split at h
  · simp at h
  · rfl

theorem hold_of_refused {before after : PreviewState} {value : String} {note : Note}
    (h : (b.hold before after value note).result = false) :
    b.hold before after value note = ⟨b, false, []⟩ := by
  unfold hold at h ⊢
  split at h
  · simp at h
  · rename_i hs
    rw [if_neg hs]

/-- An operation that is refused does nothing. -/
theorem perform_of_refused {operation : Operation}
    (h : (b.perform operation).result = .success false) :
    (b.perform operation).state = b ∧ (b.perform operation).effects = [] := by
  cases operation with
  | bind config target => simp [perform, Outcome.map] at h
  | rebind config => simp [perform, Outcome.map] at h
  | replay => simp [perform, Outcome.map, replay_of_refused (Reply.success.inj h)]
  | pause => simp [perform, Outcome.map, pause, hold_of_refused (Reply.success.inj h)]
  | resume => simp [perform, Outcome.map, resume, hold_of_refused (Reply.success.inj h)]
  | unbind => simp [perform, Outcome.map] at h

/-! Every call of a binder stays within the names of previews. -/

theorem within_apply (h : b.marks.Within) : (b.apply config).state.marks.Within := by
  cases ht : b.target with
  | none => rw [apply_of_target_none ht]; exact h
  | some id =>
    cases hc : Animation.ofConfig config with
    | error cause => rw [apply_of_error ht hc]; exact h
    | ok animation =>
      rw [apply_of_ok ht hc]
      refine ⟨fun token => Preview.ofClass_token, ?_⟩
      intro name hn
      obtain ⟨entry, he, rfl⟩ := List.mem_map.mp hn
      exact Preview.ofStyle_properties he

theorem within_hold {before after : PreviewState} {value : String} {note : Note}
    (h : b.marks.Within) : (b.hold before after value note).state.marks.Within := by
  unfold hold
  split <;> exact h

theorem within_replay (h : b.marks.Within) : b.replay.state.marks.Within := by
  unfold replay
  split <;> exact h

/-- Whatever is done, a binder remembers names of previews only. -/
theorem within_perform (operation : Operation) (h : b.marks.Within) :
    (b.perform operation).state.marks.Within := by
  cases operation with
  | bind config target => exact within_apply Marks.within_empty
  | rebind config => exact within_apply Marks.within_empty
  | replay => exact within_replay h
  | pause => exact within_hold h
  | resume => exact within_hold h
  | unbind => exact Marks.within_empty

theorem covers_removal {call : ElementCall} (h : b.marks.Within) (hc : call ∈ b.marks.removal) :
    Preview.names.covers call = true := by
  rw [Marks.removal_eq] at hc
  rcases List.mem_append.mp hc with hc | hc
  · obtain ⟨token, hm, rfl⟩ := List.mem_map.mp hc
    exact h.1 token (Option.mem_toList.mp hm)
  · obtain ⟨name, hm, rfl⟩ := List.mem_map.mp hc
    rcases List.mem_append.mp hm with hm | hm
    · exact h.2 name hm
    · split at hm
      · rw [List.mem_singleton.mp hm]
        exact Preview.ofStyle_playStateName
      · simp at hm

theorem covers_release {call : ElementCall} (h : b.marks.Within)
    (hc : call ∈ callsTo id b.release.effects) : Preview.names.covers call = true := by
  rw [callsTo_release] at hc
  split at hc
  · exact covers_removal h hc
  · simp at hc

theorem covers_apply {call : ElementCall} (hc : call ∈ callsTo id (b.apply config).effects) :
    Preview.names.covers call = true := by
  cases ha : Animation.ofConfig config with
  | error cause =>
    rw [callsTo_apply_of_error ha] at hc
    simp at hc
  | ok animation =>
    rw [callsTo_apply_of_ok ha] at hc
    split at hc
    · rcases List.mem_append.mp hc with hc | hc
      · obtain ⟨entry, he, rfl⟩ := List.mem_map.mp hc
        exact Preview.ofStyle_properties he
      · obtain ⟨token, hm, rfl⟩ := List.mem_map.mp hc
        exact Preview.ofClass_token (Option.mem_toList.mp hm)
    · simp at hc

theorem covers_replay {call : ElementCall} (h : b.marks.Within)
    (hc : call ∈ callsTo id b.replay.effects) : Preview.names.covers call = true := by
  cases ht : b.target with
  | none =>
    rw [replay_of_none (Or.inl ht)] at hc
    simp at hc
  | some element =>
    cases hm : b.marks.token with
    | none =>
      rw [replay_of_none (Or.inr hm)] at hc
      simp at hc
    | some token =>
      have htoken := h.1 token hm
      rw [callsTo_replay ht hm] at hc
      split at hc
      · rcases List.mem_append.mp hc with hc | hc
        · split at hc
          · rw [List.mem_singleton.mp hc]
            exact Preview.ofStyle_playStateName
          · simp at hc
        · simp only [List.mem_cons, List.not_mem_nil, or_false] at hc
          rcases hc with rfl | rfl | rfl
          · exact htoken
          · rfl
          · exact htoken
      · simp at hc

theorem covers_hold {before after : PreviewState} {value : String} {note : Note}
    {call : ElementCall} (hc : call ∈ callsTo id (b.hold before after value note).effects) :
    Preview.names.covers call = true := by
  unfold hold at hc
  split at hc
  · simp only [callsTo_append, callsTo_onTarget, callsTo_cons_note, callsTo_nil,
      List.append_nil] at hc
    split at hc
    · rw [List.mem_singleton.mp hc]
      exact Preview.ofStyle_playStateName
    · simp at hc
  · simp at hc

theorem covers_perform {operation : Operation} {call : ElementCall} (h : b.marks.Within)
    (hc : call ∈ callsTo id (b.perform operation).effects) : Preview.names.covers call = true := by
  cases operation with
  | bind config target =>
    rcases List.mem_append.mp (callsTo_bind ▸ hc) with hc | hc
    · exact covers_release h hc
    · exact covers_apply hc
  | rebind config =>
    rcases List.mem_append.mp (callsTo_rebind ▸ hc) with hc | hc
    · exact covers_release h hc
    · exact covers_apply hc
  | replay => exact covers_replay h hc
  | pause => exact covers_hold hc
  | resume => exact covers_hold hc
  | unbind => exact covers_release h (callsTo_unbind ▸ hc)

end Binder
end AnimationKit
