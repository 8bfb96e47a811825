import AnimationKit.Proofs.Preview.Restarts

/-!
Flushes between taking a class off and putting it on again. An element that sees both in one task
restarts the animation only if its layout was flushed in between. A replay does so. A config that is
put on an element in place of one with the same class does not.
-/
namespace AnimationKit

variable {token : String} {calls first second between : List ElementCall}

/-- A class is taken off and put on again, with these calls in between. -/
def Readds (token : String) (between calls : List ElementCall) : Prop :=
  ∃ before after, calls = before ++ .removeClass token :: (between ++ .addClass token :: after)

/-- No class is put on again without a flush since it was taken off. -/
def Flushed (calls : List ElementCall) : Prop :=
  ∀ token between, Readds token between calls → .reflow ∈ between

theorem Readds.mem (h : Readds token between calls) :
    .removeClass token ∈ calls ∧ .addClass token ∈ calls ∧ between ⊆ calls := by
  obtain ⟨before, after, rfl⟩ := h
  refine ⟨by simp, by simp, fun call hm => ?_⟩
  simp [hm]

/-- Classes that are only taken off first, and then only put on. -/
theorem readds_append_iff (hfirst : ∀ token, .addClass token ∉ first)
    (hsecond : ∀ token, .removeClass token ∉ second) :
    (∃ between, Readds token between (first ++ second)) ↔
      .removeClass token ∈ first ∧ .addClass token ∈ second := by
  constructor
  · rintro ⟨between, h⟩
    obtain ⟨hremoved, hadded, -⟩ := h.mem
    exact ⟨(List.mem_append.mp hremoved).resolve_right (hsecond token),
      (List.mem_append.mp hadded).resolve_left (hfirst token)⟩
  · rintro ⟨hremoved, hadded⟩
    obtain ⟨before, rest, rfl⟩ := List.append_of_mem hremoved
    obtain ⟨done, after, rfl⟩ := List.append_of_mem hadded
    exact ⟨rest ++ done, before, after, by simp⟩

theorem flushed_of_not_added (h : ∀ token, .addClass token ∉ calls) : Flushed calls :=
  fun token _ hreadds => (h token hreadds.mem.2.1).elim

/-- Without a flush, no class may be put on again at all. -/
theorem flushed_iff_of_not_reflow (h : .reflow ∉ calls) :
    Flushed calls ↔ ∀ token, ¬ ∃ between, Readds token between calls := by
  constructor
  · rintro hflushed token ⟨between, hreadds⟩
    exact h (hreadds.mem.2.2 (hflushed token between hreadds))
  · intro hnone token between hreadds
    exact (hnone token ⟨between, hreadds⟩).elim

/-- A flush between taking classes off and putting classes on. -/
theorem flushed_append (hfirst : ∀ token, .addClass token ∉ first)
    (hsecond : ∀ token, .removeClass token ∉ second) : Flushed (first ++ .reflow :: second) := by
  rintro token between ⟨before, after, h⟩
  -- The class is taken off in the first part, and put on in the second one.
  rcases List.append_eq_append_iff.mp h with ⟨rest, -, hrest⟩ | ⟨rest, rfl, hrest⟩
  · cases rest with
    | nil => simp at hrest
    | cons call rest =>
      obtain ⟨-, rfl⟩ := List.cons.inj hrest
      exact (hsecond token (by simp)).elim
  · cases rest with
    | nil => simp at hrest
    | cons call rest =>
      obtain ⟨-, hbehind⟩ := List.cons.inj hrest
      rcases List.append_eq_append_iff.mp hbehind with ⟨flush, rfl, hflush⟩ | ⟨flush, rfl, hflush⟩
      · cases flush with
        | nil => simp at hflush
        | cons added flush =>
          obtain ⟨rfl, -⟩ := List.cons.inj hflush
          exact (hfirst token (by simp)).elim
      · cases flush with
        | nil => simp at hflush
        | cons call flush =>
          obtain ⟨rfl, -⟩ := List.cons.inj hflush
          simp

namespace Binder

variable {b : Binder} {config : Config} {applied : Option Config} {target : Option ElementId}
  {id : ElementId} {operation : Operation}

/-- The config has an animation, which is that of this class. -/
def Animates (config : Option Config) (token : String) : Prop :=
  ∃ given animation, config = some given ∧ Animation.ofConfig given = .ok animation ∧
    Preview.token? given = some token

/-- A config is put on the element that is held, and its class is the one that the element has of
the config that was applied last. -/
structure Repeats (b : Binder) (applied : Option Config) (operation : Operation) (id : ElementId)
    (token : String) : Prop where
  held : b.target = some id
  kept : (b.perform operation).state.target = some id
  last : Animates applied token
  next : Animates operation.config? token

/-! Calls of a binder. -/

theorem mem_release_iff (h : b.Situation applied) :
    .removeClass token ∈ callsTo id b.release.effects ↔
      b.target = some id ∧ Animates applied token := by
  rw [callsTo_release]
  by_cases htarget : b.target = some id
  · rw [if_pos htarget]
    have hmem : .removeClass token ∈ b.marks.removal ↔ b.marks.token = some token := by
      simp [Marks.removal_eq, eq_comm]
    rw [hmem]
    cases h with
    | unbound ht hs hm => simp [ht] at htarget
    | bound ht ha hc hs hm => simp [hm, htarget, Animates, ha, hc]
    | animating ht ha hc hs htoken hproperties => simp [htoken, htarget, Animates, ha, hc]
  · simp [htarget]

theorem mem_apply_iff : .addClass token ∈ callsTo id (b.apply config).effects ↔
    b.target = some id ∧ Animates (some config) token := by
  cases hc : Animation.ofConfig config with
  | error cause => simp [callsTo_apply_of_error hc, Animates, hc]
  | ok animation =>
    rw [callsTo_apply_of_ok hc]
    by_cases htarget : b.target = some id
    · simp [htarget, applyCalls, Animates, hc, eq_comm]
    · simp [htarget]

theorem not_added_release : .addClass token ∉ callsTo id b.release.effects :=
  fun hm => still_release id token (mem_callsTo.mp hm)

theorem not_removed_apply : .removeClass token ∉ callsTo id (b.apply config).effects := by
  cases hc : Animation.ofConfig config with
  | error cause => simp [callsTo_apply_of_error hc]
  | ok animation =>
    rw [callsTo_apply_of_ok hc]
    split <;> simp [applyCalls]

/-- A class is put on again just if both configs have it and the element stays the same. -/
theorem readds_bind_iff (h : b.Situation applied) :
    (∃ between, Readds token between (callsTo id (b.bind config target).effects)) ↔
      (b.target = some id ∧ Animates applied token) ∧
        target = some id ∧ Animates (some config) token := by
  rw [callsTo_bind, readds_append_iff (fun _ => not_added_release) fun _ => not_removed_apply,
    mem_release_iff h, mem_apply_iff]

theorem flushed_replay : Flushed (callsTo id b.replay.effects) := by
  rcases replay_cases b with hnone | ⟨element, token, ht, hm, -, -, -⟩
  · rw [hnone]
    exact flushed_of_not_added (by simp)
  · rw [callsTo_replay ht hm]
    split
    · have hcalls : replayCalls b.marks token =
          ((if b.marks.playState then [.removeStyle playStateName] else []) ++
            [.removeClass token]) ++ .reflow :: [.addClass token] := by
        simp [replayCalls]
      rw [hcalls]
      apply flushed_append
      · split <;> simp
      · simp
    · exact flushed_of_not_added (by simp)

theorem readds_replay (h : b.Situation applied) (hresult : b.replay.result = true)
    (htarget : b.target = some id) :
    ∃ token, Animates applied token ∧ Readds token [.reflow] (callsTo id b.replay.effects) := by
  cases h with
  | unbound ht hs hm => simp [ht] at htarget
  | bound ht ha hc hs hm =>
    rw [replay_of_none (Or.inr (congrArg Marks.token hm))] at hresult
    cases hresult
  | @animating _ config animation ht ha hc hs htoken hproperties =>
    obtain ⟨token, hk⟩ := Preview.token_of_ok hc
    refine ⟨token, ⟨config, animation, ha, hc, hk⟩,
      if b.marks.playState then [.removeStyle playStateName] else [], [], ?_⟩
    rw [callsTo_replay ht (htoken.trans hk), if_pos htarget]
    rfl

/-- What an operation does to the class of an element: none is put on again without a flush, unless
the operation repeats the class that the element has; then it is put on again without one. A replay
puts it on again right behind a flush. -/
structure Flushing (b : Binder) (applied : Option Config) (operation : Operation)
    (id : ElementId) : Prop where
  flushed_iff : Flushed (callsTo id (b.perform operation).effects) ↔
    ∀ token, ¬ b.Repeats applied operation id token
  repeated : ∀ token, b.Repeats applied operation id token →
    (b.perform operation).result = .state .running ∧
      (∃ between, Readds token between (callsTo id (b.perform operation).effects)) ∧
      .reflow ∉ callsTo id (b.perform operation).effects
  replayed : operation.replays (b.perform operation).result = true → b.target = some id →
    ∃ token, Animates applied token ∧
      Readds token [.reflow] (callsTo id (b.perform operation).effects)

theorem result_bind_of_animates (h : Animates (some config) token) (htarget : target = some id) :
    (b.bind config target).result = .running := by
  obtain ⟨_, animation, hconfig, hc, -⟩ := h
  rw [← Option.some.inj hconfig] at hc
  change ({ b.release.state with target := target }.apply config).result = _
  rw [apply_of_ok htarget hc]

/-- Putting a config on an element flushes nothing. -/
theorem flushing_of_bind (target : Option ElementId)
    (hperform : b.perform operation = b.perform (.bind config target))
    (hconfig : operation.config? = some config) (h : b.Situation applied) :
    b.Flushing applied operation id := by
  have heffects : (b.perform operation).effects = (b.bind config target).effects :=
    congrArg Outcome.effects hperform
  have hnone : .reflow ∉ callsTo id (b.bind config target).effects :=
    fun hm => not_reflow_bind (mem_callsTo.mp hm)
  have hkept : (b.perform operation).state.target = target := by
    rw [hperform]
    exact apply_target
  have hrepeats (token : String) : b.Repeats applied operation id token ↔
      ∃ between, Readds token between (callsTo id (b.bind config target).effects) := by
    rw [readds_bind_iff h]
    constructor
    · rintro ⟨hheld, hkept', hlast, hnext⟩
      exact ⟨⟨hheld, hlast⟩, hkept.symm.trans hkept', hconfig ▸ hnext⟩
    · rintro ⟨⟨hheld, hlast⟩, htarget, hnext⟩
      exact ⟨hheld, hkept.trans htarget, hlast, hconfig ▸ hnext⟩
  refine ⟨?_, fun token hrepeats' => ⟨?_, ?_, ?_⟩, fun hreplays => ?_⟩
  · rw [heffects, flushed_iff_of_not_reflow hnone]
    exact forall_congr' fun token => not_congr (hrepeats token).symm
  · have hresult : (b.bind config target).result = .running :=
      result_bind_of_animates (hconfig ▸ hrepeats'.next) (hkept.symm.trans hrepeats'.kept)
    rw [hperform]
    exact congrArg Reply.state hresult
  · rw [heffects]
    exact (hrepeats token).mp hrepeats'
  · rwa [heffects]
  · rw [eq_replay_of_replays hreplays] at hconfig
    cases hconfig

/-- An operation that puts no config on an element repeats no class. -/
theorem flushing_of_flushed (hconfig : operation.config? = none)
    (hflushed : Flushed (callsTo id (b.perform operation).effects))
    (hreplayed : operation.replays (b.perform operation).result = true → b.target = some id →
      ∃ token, Animates applied token ∧
        Readds token [.reflow] (callsTo id (b.perform operation).effects)) :
    b.Flushing applied operation id := by
  have hnone (token : String) : ¬ b.Repeats applied operation id token := by
    rintro ⟨-, -, -, config, animation, hnext, -⟩
    rw [hconfig] at hnext
    cases hnext
  exact ⟨iff_of_true hflushed hnone, fun token hrepeats => (hnone token hrepeats).elim, hreplayed⟩

/-- An operation that adds no class restarts nothing. -/
theorem flushing_of_still (hconfig : operation.config? = none)
    (hreplays : operation.replays (b.perform operation).result = false)
    (h : Still (b.perform operation).effects) : b.Flushing applied operation id := by
  apply flushing_of_flushed hconfig
  · exact flushed_of_not_added fun token hm => h id token (mem_callsTo.mp hm)
  · intro hreplays'
    rw [hreplays] at hreplays'
    cases hreplays'

theorem flushing_perform (operation : Operation) (id : ElementId) (h : b.Situation applied) :
    b.Flushing applied operation id := by
  cases operation with
  | bind config target => exact flushing_of_bind target rfl rfl h
  | rebind config => exact flushing_of_bind b.target rfl rfl h
  | replay =>
    apply flushing_of_flushed rfl flushed_replay
    intro hreplays htarget
    have hresult : b.replay.result = true := by
      simpa [Operation.replays, perform, Outcome.map] using hreplays
    exact readds_replay h hresult htarget
  | pause => exact flushing_of_still rfl rfl still_hold
  | resume => exact flushing_of_still rfl rfl still_hold
  | unbind => exact flushing_of_still rfl rfl (still_append still_release (still_note _))

/-- Whatever was done with a binder, its next operation flushes the layout of an element wherever it
restarts an animation there, except if it puts a config in the place of one with the same class. -/
theorem flushing_run (operations : List Operation) (operation : Operation) (id : ElementId) :
    (run {} operations).Flushing (lastConfig operations) operation id :=
  flushing_perform operation id (situation_run operations)

/-- A config that is put on an element which shows it repeats its own class. -/
theorem repeats_rebind (id : ElementId) (h : Animates (some config) token) :
    (run {} [.bind config (some id)]).Repeats (lastConfig [.bind config (some id)])
      (.rebind config) id token := by
  have htarget : (run {} [.bind config (some id)]).target = some id := apply_target
  exact ⟨htarget, apply_target.trans htarget, h, h⟩

/-- A fade is put on an element that shows it: the class is taken off and put on again, and nothing
comes in between that would let the element see that it was off. -/
theorem unflushed_rebind :
    ((run {} [.bind .default (some 0)]).perform (.rebind .default)).result = .state .running ∧
      (∃ between, Readds "mf-fade" between (callsTo 0
        ((run {} [.bind .default (some 0)]).perform (.rebind .default)).effects)) ∧
      ¬ Flushed (callsTo 0
        ((run {} [.bind .default (some 0)]).perform (.rebind .default)).effects) := by
  have hvalid : Animation.ofConfig .default =
      .ok ⟨.fade, ⟨Config.default.duration, .zero, .named .ease⟩, .fade Defaults.opacity⟩ := by
    decide +kernel
  have hrepeats := repeats_rebind 0 ⟨_, _, rfl, hvalid, rfl⟩
  have hflushing := flushing_perform (.rebind .default) 0 (situation_run [.bind .default (some 0)])
  obtain ⟨hresult, hreadds, -⟩ := hflushing.repeated _ hrepeats
  exact ⟨hresult, hreadds, fun hflushed => hflushing.flushed_iff.mp hflushed _ hrepeats⟩

end Binder
end AnimationKit
