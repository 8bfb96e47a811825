import AnimationKit.Proofs.Config.Acceptance
import AnimationKit.Proofs.Preview.Operation

/-! One binder and the config it was given last: its fields, and its part of every element. -/
namespace AnimationKit

namespace Appearance

variable {a : Appearance}

theorem applyAll_setStyles (entries : List (String × String)) :
    a.applyAll (entries.map fun entry => .setStyle entry.1 entry.2) =
      { a with style := entries.foldl (fun style entry => style.set entry.1 entry.2) a.style } := by
  induction entries generalizing a with
  | nil => rfl
  | cons entry entries ih =>
    rw [List.map_cons, applyAll_cons, ih]
    rfl

theorem applyAll_setStyle {classes : List String} {style : InlineStyle} {name value : String} :
    (Appearance.mk classes style).applyAll [.setStyle name value] =
      ⟨classes, style.set name value⟩ := rfl

theorem applyAll_removeStyles {names : List String} (h : ∀ entry ∈ a.style, entry.1 ∈ names) :
    a.applyAll (names.map .removeStyle) = { a with style := [] } := by
  induction names generalizing a with
  | nil =>
    have hs : a.style = [] :=
      List.eq_nil_iff_forall_not_mem.mpr fun entry he => by simpa using h entry he
    simp [← hs]
  | cons name names ih =>
    rw [List.map_cons, applyAll_cons, ih]
    · rfl
    · intro entry he
      obtain ⟨he, hne⟩ := InlineStyle.mem_of_mem_remove he
      exact (List.mem_cons.mp (h entry he)).resolve_left hne

/-- An element is clear once everything on it that is marked has been taken off. -/
theorem applyAll_removal {marks : Marks} {style : InlineStyle}
    (hs : ∀ entry ∈ style, entry.1 ∈ marks.styleNames) :
    (Appearance.mk marks.token.toList style).applyAll marks.removal = .empty := by
  have hclass : (Appearance.mk marks.token.toList style).applyAll
      (marks.token.toList.map .removeClass) = ⟨[], style⟩ := by
    cases ht : marks.token <;> simp [apply]
  rw [Marks.removal_eq, applyAll_append, hclass, applyAll_removeStyles]
  · rfl
  · exact hs

/-- A replay puts the class back and lets go of the play state. -/
theorem applyAll_replayCalls {marks : Marks} {token : String} {style : InlineStyle} :
    (Appearance.mk [token] style).applyAll (Binder.replayCalls marks token) =
      ⟨[token], if marks.playState then style.remove playStateName else style⟩ := by
  unfold Binder.replayCalls
  split <;> simp [apply]

end Appearance

theorem Preview.token_of_ok {config : Config} {animation : Animation}
    (h : Animation.ofConfig config = .ok animation) :
    ∃ token, Preview.token? config = some token := by
  obtain ⟨family, hk⟩ := Animation.kind_of_ok h
  exact ⟨familyToken config family, by simp [token?, hk]⟩

namespace Binder

variable {b : Binder} {config : Config} {applied : Option Config} {id : ElementId}

def Operation.config? : Operation → Option Config
  | .bind config _ | .rebind config => some config
  | .replay | .pause | .resume | .unbind => none

/-- How the fields of a binder fit the config it was given last. -/
inductive Situation (b : Binder) (applied : Option Config) : Prop
  | unbound (ht : b.target = none) (hs : b.state = .unbound) (hm : b.marks = {})
  | bound {id : ElementId} {config : Config} {cause : AnimationError}
      (ht : b.target = some id) (ha : applied = some config)
      (hc : Animation.ofConfig config = .error cause)
      (hs : b.state = .bound) (hm : b.marks = {})
  | animating {id : ElementId} {config : Config} {animation : Animation}
      (ht : b.target = some id) (ha : applied = some config)
      (hc : Animation.ofConfig config = .ok animation)
      (hs : b.state = .running ∨ b.state = .paused ∧ b.marks.playState = true)
      (htoken : b.marks.token = Preview.token? config)
      (hproperties : b.marks.properties = (Preview.properties config).map (·.1))

/-- The play state that a binder has set. -/
def playState? (b : Binder) : Option String :=
  if b.marks.playState then some (if b.state = .paused then "paused" else "running") else none

/-- The properties that a binder has set for a config, the play state last. -/
def shownStyle (b : Binder) (config : Config) : InlineStyle :=
  .ofList (Preview.properties config ++ b.playState?.toList.map fun value => (playStateName, value))

/-- What a binder shows of a config on its element. -/
def shown (b : Binder) (config : Config) : Appearance :=
  match Animation.ofConfig config with
  | .error _ => .empty
  | .ok _ => ⟨(Preview.token? config).toList, b.shownStyle config⟩

/-- What a binder shows on any element. -/
def share (b : Binder) (applied : Option Config) (id : ElementId) : Appearance :=
  if b.target = some id then (applied.map b.shown).getD .empty else .empty

theorem share_of_target_ne (h : b.target ≠ some id) : b.share applied id = .empty := if_neg h

theorem share_of_target (ht : b.target = some id) :
    b.share (some config) id = b.shown config := if_pos ht

theorem shown_of_error {cause : AnimationError} (hc : Animation.ofConfig config = .error cause) :
    b.shown config = .empty := by
  simp [shown, hc]

theorem shown_of_ok {animation : Animation} (hc : Animation.ofConfig config = .ok animation) :
    b.shown config = ⟨(Preview.token? config).toList, b.shownStyle config⟩ := by
  simp [shown, hc]

theorem situation_new : Situation {} none := .unbound rfl rfl rfl

/-- Every property that an animating binder shows is among its marks. -/
theorem mem_styleNames_of_shown {entry : String × String}
    (hproperties : b.marks.properties = (Preview.properties config).map (·.1))
    (he : entry ∈ b.shownStyle config) : entry.1 ∈ b.marks.styleNames := by
  rcases List.mem_append.mp (InlineStyle.mem_of_mem_ofList he) with he | he
  · apply List.mem_append_left
    rw [hproperties]
    exact List.mem_map_of_mem he
  · apply List.mem_append_right
    obtain ⟨value, hv, rfl⟩ := List.mem_map.mp he
    unfold playState? at hv
    split at hv
    · rename_i hp
      simp [hp]
    · simp at hv

/-- Letting go takes off all that a binder shows. -/
theorem share_release (h : b.Situation applied) :
    (b.share applied id).applyAll (callsTo id b.release.effects) = .empty := by
  rw [callsTo_release]
  split
  · rename_i htarget
    cases h with
    | unbound ht => simp [ht] at htarget
    | bound ht ha hc hs hm =>
      rw [ha, share_of_target htarget, shown_of_error hc, hm]
      rfl
    | @animating element config animation ht ha hc hs htoken hproperties =>
      have hmarked : ∀ entry ∈ b.shownStyle config, entry.1 ∈ b.marks.styleNames := by
        intro entry he
        exact mem_styleNames_of_shown hproperties he
      rw [ha, share_of_target htarget, shown_of_ok hc, ← htoken]
      exact Appearance.applyAll_removal hmarked
  · rename_i htarget
    rw [share_of_target_ne htarget]
    rfl

theorem situation_apply (hm : b.marks = {}) : (b.apply config).state.Situation (some config) := by
  cases ht : b.target with
  | none =>
    rw [apply_of_target_none ht]
    exact .unbound ht rfl hm
  | some id =>
    cases hc : Animation.ofConfig config with
    | error cause =>
      rw [apply_of_error ht hc]
      exact .bound ht rfl hc rfl hm
    | ok animation =>
      rw [apply_of_ok ht hc]
      exact .animating ht rfl hc (Or.inl rfl) rfl rfl

theorem applyCalls_empty {animation : Animation} (hc : Animation.ofConfig config = .ok animation) :
    Appearance.empty.applyAll (applyCalls config) =
      ⟨(Preview.token? config).toList, .ofList (Preview.properties config)⟩ := by
  obtain ⟨token, hk⟩ := Preview.token_of_ok hc
  rw [applyCalls, Appearance.applyAll_append, Appearance.applyAll_setStyles, hk]
  simp [Appearance.apply, Appearance.empty, InlineStyle.ofList]

/-- From an element that carries nothing of it, a binder goes to what it shows of the config. -/
theorem share_apply :
    Appearance.empty.applyAll (callsTo id (b.apply config).effects) =
      (b.apply config).state.share (some config) id := by
  by_cases htarget : b.target = some id
  · rw [share_of_target (apply_target.trans htarget)]
    cases hc : Animation.ofConfig config with
    | error cause =>
      rw [callsTo_apply_of_error hc, shown_of_error hc]
      rfl
    | ok animation =>
      rw [callsTo_apply_of_ok hc, if_pos htarget, applyCalls_empty hc, shown_of_ok hc,
        apply_of_ok htarget hc]
      simp [shownStyle, playState?]
  · have htarget' : (b.apply config).state.target ≠ some id := by
      rw [apply_target]
      exact htarget
    rw [share_of_target_ne htarget']
    cases hc : Animation.ofConfig config with
    | error cause =>
      rw [callsTo_apply_of_error hc]
      rfl
    | ok animation =>
      rw [callsTo_apply_of_ok hc, if_neg htarget]
      rfl

/-! Replaying, pausing and resuming keep the config. -/

theorem situation_replay (h : b.Situation applied) : b.replay.state.Situation applied := by
  cases h with
  | unbound ht hs hm =>
    rw [replay_of_none (Or.inl ht)]
    exact .unbound ht hs hm
  | bound ht ha hc hs hm =>
    rw [replay_of_none (Or.inr (by rw [hm]))]
    exact .bound ht ha hc hs hm
  | animating ht ha hc hs htoken hproperties =>
    obtain ⟨token, hk⟩ := Preview.token_of_ok hc
    rw [replay_of_some ht (htoken.trans hk)]
    exact .animating ht ha hc (Or.inl rfl) htoken hproperties

/-- The play state is no property of a config. -/
theorem playState_not_mem {animation : Animation} (hc : Animation.ofConfig config = .ok animation) :
    ∀ entry ∈ InlineStyle.ofList (Preview.properties config), entry.1 ≠ playStateName := by
  intro entry he heq
  obtain ⟨family, hk⟩ := Animation.kind_of_ok hc
  have hnodup := Preview.nodup_properties hk
  rw [List.nodup_append] at hnodup
  exact hnodup.2.2 _ (List.mem_map_of_mem (InlineStyle.mem_of_mem_ofList he)) _ (by simp) heq

theorem shownStyle_of_none (config : Config) (h : b.playState? = none) :
    b.shownStyle config = .ofList (Preview.properties config) := by
  simp [shownStyle, h]

theorem shownStyle_of_some (config : Config) {value : String} (h : b.playState? = some value) :
    b.shownStyle config =
      (InlineStyle.ofList (Preview.properties config)).set playStateName value := by
  rw [shownStyle, h, Option.toList_some, List.map_singleton, InlineStyle.ofList_append_singleton]

theorem remove_playState_shownStyle {animation : Animation}
    (hc : Animation.ofConfig config = .ok animation) :
    (b.shownStyle config).remove playStateName = .ofList (Preview.properties config) := by
  cases hp : b.playState? with
  | none => rw [shownStyle_of_none _ hp, InlineStyle.remove_of_forall_ne (playState_not_mem hc)]
  | some value =>
    rw [shownStyle_of_some _ hp, InlineStyle.remove_set,
      InlineStyle.remove_of_forall_ne (playState_not_mem hc)]

theorem set_playState_shownStyle {value : String} :
    (b.shownStyle config).set playStateName value =
      (InlineStyle.ofList (Preview.properties config)).set playStateName value := by
  cases hp : b.playState? with
  | none => rw [shownStyle_of_none _ hp]
  | some value' => rw [shownStyle_of_some _ hp, InlineStyle.set_set]

/-- A change of the play state alone: the element follows it. -/
theorem share_of_playState {b' : Binder} {calls : List ElementCall}
    (ha : applied = some config) (ht : b'.target = b.target)
    (hcalls : (b.shown config).applyAll calls = b'.shown config) :
    (b.share applied id).applyAll (if b.target = some id then calls else []) =
      b'.share applied id := by
  subst ha
  split
  · rename_i htarget
    rw [share_of_target htarget, share_of_target (ht.trans htarget), hcalls]
  · rename_i htarget
    rw [share_of_target_ne htarget, share_of_target_ne (ht ▸ htarget)]
    rfl

theorem playState?_replay {token : String} (ht : b.target = some id)
    (hm : b.marks.token = some token) : b.replay.state.playState? = none := by
  simp [replay_of_some ht hm, playState?]

theorem share_replay (h : b.Situation applied) :
    (b.share applied id).applyAll (callsTo id b.replay.effects) =
      b.replay.state.share applied id := by
  cases h with
  | unbound ht hs hm => rw [replay_of_none (Or.inl ht), callsTo_nil, Appearance.applyAll_nil]
  | bound ht ha hc hs hm =>
    rw [replay_of_none (Or.inr (by rw [hm])), callsTo_nil, Appearance.applyAll_nil]
  | @animating _ config _ ht ha hc hs htoken hproperties =>
    obtain ⟨token, hk⟩ := Preview.token_of_ok hc
    have hnew := shownStyle_of_none config (playState?_replay ht (htoken.trans hk))
    rw [callsTo_replay ht (htoken.trans hk)]
    refine share_of_playState ha target_replay ?_
    rw [shown_of_ok hc, shown_of_ok hc, hk, Option.toList_some, Appearance.applyAll_replayCalls,
      hnew]
    split
    · rw [remove_playState_shownStyle hc]
    · rename_i hp
      have hold : b.playState? = none := by simp [playState?, hp]
      rw [shownStyle_of_none _ hold]

section hold

variable {before after : PreviewState} {value : String} {note : Note}

theorem not_unbound_or_bound (hbefore : before = .running ∨ before = .paused)
    (hs : b.state = before) : b.state ≠ .unbound ∧ b.state ≠ .bound := by
  rcases hbefore with rfl | rfl <;> simp [hs]

theorem situation_hold (hbefore : before = .running ∨ before = .paused)
    (hafter : after = .running ∨ after = .paused) (h : b.Situation applied) :
    (b.hold before after value note).state.Situation applied := by
  by_cases hstate : b.state = before
  · have hne := not_unbound_or_bound hbefore hstate
    cases h with
    | unbound ht hs hm => exact (hne.1 hs).elim
    | bound ht ha hc hs hm => exact (hne.2 hs).elim
    | animating ht ha hc hs htoken hproperties =>
      rw [hold_of_state hstate ht]
      exact .animating ht ha hc (hafter.imp_right fun ha => ⟨ha, rfl⟩) htoken hproperties
  · rw [hold_of_not (Or.inl hstate)]
    exact h

theorem playState?_hold (note : Note)
    (hvalue : value = if after = .paused then "paused" else "running")
    (hs : b.state = before) (ht : b.target = some id) :
    (b.hold before after value note).state.playState? = some value := by
  simp [hold_of_state hs ht, playState?, hvalue]

theorem share_hold (hbefore : before = .running ∨ before = .paused)
    (hvalue : value = if after = .paused then "paused" else "running") (h : b.Situation applied) :
    (b.share applied id).applyAll (callsTo id (b.hold before after value note).effects) =
      (b.hold before after value note).state.share applied id := by
  by_cases hstate : b.state = before
  · have hne := not_unbound_or_bound hbefore hstate
    cases h with
    | unbound ht hs hm => exact (hne.1 hs).elim
    | bound ht ha hc hs hm => exact (hne.2 hs).elim
    | @animating _ config _ ht ha hc hs htoken hproperties =>
      have hnew := shownStyle_of_some config (playState?_hold note hvalue hstate ht)
      rw [callsTo_hold hstate ht]
      refine share_of_playState ha target_hold ?_
      rw [shown_of_ok hc, shown_of_ok hc, hnew, Appearance.applyAll_setStyle,
        set_playState_shownStyle]
  · rw [hold_of_not (Or.inl hstate), callsTo_nil, Appearance.applyAll_nil]

end hold

theorem within_of_situation (h : b.Situation applied) : b.marks.Within := by
  cases h with
  | unbound ht hs hm => rw [hm]; exact Marks.within_empty
  | bound ht ha hc hs hm => rw [hm]; exact Marks.within_empty
  | animating ht ha hc hs htoken hproperties =>
    refine ⟨?_, ?_⟩
    · intro token hk
      exact Preview.ofClass_token (htoken ▸ hk)
    · intro name hn
      rw [hproperties] at hn
      obtain ⟨entry, he, rfl⟩ := List.mem_map.mp hn
      exact Preview.ofStyle_properties he

/-- Every operation leaves the fields in step with the config given last. -/
theorem situation_perform (operation : Operation) (h : b.Situation applied) :
    (b.perform operation).state.Situation (operation.config?.or applied) := by
  cases operation with
  | bind config target => exact situation_apply rfl
  | rebind config => exact situation_apply rfl
  | replay => exact situation_replay h
  | pause => exact situation_hold (Or.inl rfl) (Or.inr rfl) h
  | resume => exact situation_hold (Or.inr rfl) (Or.inl rfl) h
  | unbind => exact .unbound rfl rfl rfl

/-- A binder after some operations. -/
def run (binder : Binder) (operations : List Operation) : Binder :=
  operations.foldl (fun binder operation => (binder.perform operation).state) binder

/-- The config that some operations applied last. -/
def lastConfig (operations : List Operation) : Option Config :=
  (operations.filterMap Operation.config?).getLast?

theorem situation_run (operations : List Operation) :
    (run {} operations).Situation (lastConfig operations) := by
  induction operations using List.reverseRecOn with
  | nil => exact situation_new
  | append_singleton operations operation ih =>
    have hstep := situation_perform operation ih
    have hlast : lastConfig (operations ++ [operation]) =
        operation.config?.or (lastConfig operations) := by
      cases h : operation.config? <;> simp [lastConfig, h]
    have hrun : run {} (operations ++ [operation]) =
        ((run {} operations).perform operation).state := by
      simp [run]
    rwa [hlast, hrun]

/-- The calls of an operation lead every element from the old share of the binder to the new. -/
theorem share_perform (operation : Operation) (h : b.Situation applied) :
    (b.share applied id).applyAll (callsTo id (b.perform operation).effects) =
      (b.perform operation).state.share (operation.config?.or applied) id := by
  cases operation with
  | bind config target =>
    change (b.share applied id).applyAll (callsTo id (b.bind config target).effects) = _
    rw [callsTo_bind, Appearance.applyAll_append, share_release h]
    exact share_apply
  | rebind config =>
    change (b.share applied id).applyAll (callsTo id (b.rebind config).effects) = _
    rw [callsTo_rebind, Appearance.applyAll_append, share_release h]
    exact share_apply
  | replay => exact share_replay h
  | pause => exact share_hold (Or.inl rfl) rfl h
  | resume => exact share_hold (Or.inr rfl) rfl h
  | unbind =>
    change (b.share applied id).applyAll (callsTo id b.unbind.effects) = _
    rw [callsTo_unbind, share_release h]
    exact (share_of_target_ne (by simp [perform, Outcome.map, unbind])).symm

/-- On a page that shows what a binder has put there, every operation leaves it showing that. -/
theorem shows_perform {page : Page} {effects : List Effect} (operation : Operation)
    (h : b.Situation applied) (hpage : page.Shows Preview.names (b.share applied))
    (hcalls : ∀ id, callsTo id effects = callsTo id (b.perform operation).effects) :
    (page.performAll effects).Shows Preview.names
      ((b.perform operation).state.share (operation.config?.or applied)) := by
  have hcovers : ∀ id, ∀ call ∈ callsTo id effects, Preview.names.covers call = true := by
    intro id call hc
    rw [hcalls] at hc
    exact covers_perform (within_of_situation h) hc
  have hshares : (fun id => (b.share applied id).applyAll (callsTo id effects)) =
      (b.perform operation).state.share (operation.config?.or applied) := by
    funext id
    rw [hcalls, share_perform operation h]
  rw [← hshares]
  exact Page.shows_performAll hpage hcovers

end Binder
end AnimationKit
