import AnimationKit.Proofs.Preview.Sharing
import Mathlib.Data.List.Basic

/-!
Animations start complete and alone. The calls of a binder are looked at one by one: a class is added
when all that its animation reads is in place, and at no instant does a page have two classes of it.
-/
namespace AnimationKit

variable {id element : ElementId} {token other : String} {effects later before after done rest :
  List Effect}

/-- No call adds a class. -/
def Still (effects : List Effect) : Prop := ∀ id token, .call id (.addClass token) ∉ effects

theorem still_nil : Still [] := fun _ _ => List.not_mem_nil

theorem still_append (h : Still effects) (hlater : Still later) : Still (effects ++ later) := by
  intro id token hm
  rcases List.mem_append.mp hm with hm | hm
  · exact h id token hm
  · exact hlater id token hm

theorem still_note (note : Note) : Still [.note note] := by
  intro id token hm
  simp at hm

/-- Effects in which one class is added, with all that comes before and behind that call. -/
structure Launch (effects before : List Effect) (id : ElementId) (token : String)
    (after : List Effect) : Prop where
  effects_eq : effects = before ++ .call id (.addClass token) :: after
  still_before : Still before
  still_after : Still after

/-- The class is added nowhere else. -/
theorem Launch.unique (h : Launch effects before id token after)
    (heffects : effects = done ++ .call element (.addClass other) :: rest) :
    done = before ∧ element = id ∧ other = token := by
  rw [h.effects_eq] at heffects
  rcases List.append_eq_append_iff.mp heffects with ⟨between, rfl, hrest⟩ | ⟨between, rfl, hrest⟩
  · cases between with
    | nil =>
      obtain ⟨hcall, -⟩ := List.cons.inj hrest
      simp only [Effect.call.injEq, ElementCall.addClass.injEq] at hcall
      exact ⟨List.append_nil _, hcall.1.symm, hcall.2.symm⟩
    | cons first between =>
      obtain ⟨-, rfl⟩ := List.cons.inj hrest
      exact (h.still_after element other (by simp)).elim
  · cases between with
    | nil =>
      obtain ⟨hcall, -⟩ := List.cons.inj hrest
      simp only [Effect.call.injEq, ElementCall.addClass.injEq] at hcall
      exact ⟨(List.append_nil _).symm, hcall⟩
    | cons first between =>
      obtain ⟨rfl, -⟩ := List.cons.inj hrest
      exact (h.still_before element other (by simp)).elim

theorem mem_callsTo {call : ElementCall} : call ∈ callsTo id effects ↔ .call id call ∈ effects := by
  induction effects with
  | nil => simp
  | cons effect effects ih =>
    cases effect with
    | note note => simpa using ih
    | call element' call' =>
      by_cases h : element' = id
      · subst h
        simp [callsTo_cons_call_self, ih]
      · have hne : id ≠ element' := fun he => h he.symm
        simp [callsTo_cons_call_ne h, ih, hne]

theorem Preview.kind_of_token {config : Config} (h : Preview.token? config = some token) :
    ∃ family, config.kind = .family family := by
  unfold Preview.token? at h
  split at h
  · rename_i family hk
    exact ⟨family, hk⟩
  · simp at h

namespace Binder

variable {b : Binder} {config : Config} {applied : Option Config} {target : Option ElementId}
  {calls : List ElementCall} {call : ElementCall}

theorem mem_onTarget : .call id call ∈ b.onTarget calls ↔ b.target = some id ∧ call ∈ calls := by
  unfold onTarget
  cases b.target <;> simp [and_comm, eq_comm]

theorem still_onTarget (h : ∀ token, .addClass token ∉ calls) : Still (b.onTarget calls) := by
  intro id token hm
  exact h token (mem_onTarget.mp hm).2

theorem still_release : Still b.release.effects := by
  apply still_onTarget
  intro token hm
  simp [Marks.removal_eq] at hm

/-- The operation was to start an animation, and did. -/
def Operation.starts (operation : Operation) (reply : Reply) : Bool :=
  match operation with
  | .bind _ _ | .rebind _ => decide (reply = .state .running)
  | .replay => decide (reply = .success true)
  | .pause | .resume | .unbind => false

/-- An animation starts on an element that has the properties of its config and nothing else. -/
def StartsComplete (share : ElementId → Appearance) (config : Config) (id : ElementId)
    (effects : List Effect) : Prop :=
  ∃ before token after, Launch effects before id token after ∧
    Preview.token? config = some token ∧
    (share id).applyAll (callsTo id before) = ⟨[], .ofList (Preview.properties config)⟩

theorem starts_bind (config : Config) (target : Option ElementId) (h : b.Situation applied) :
    Operation.starts (.bind config target) (.state (b.bind config target).result) = false ∧
        Still (b.bind config target).effects ∨
      Operation.starts (.bind config target) (.state (b.bind config target).result) = true ∧
        ∃ id, (b.bind config target).state.target = some id ∧
          StartsComplete (b.share applied) config id (b.bind config target).effects := by
  have heffects : (b.bind config target).effects =
      b.release.effects ++ ({ b.release.state with target := target }.apply config).effects := rfl
  have hresult : (b.bind config target).result =
      ({ b.release.state with target := target }.apply config).result := rfl
  have htarget : (b.bind config target).state.target = target := apply_target
  cases target with
  | none =>
    left
    rw [heffects, hresult, apply_of_target_none rfl]
    exact ⟨rfl, still_append still_release still_nil⟩
  | some id =>
    cases hc : Animation.ofConfig config with
    | error cause =>
      left
      rw [heffects, hresult, apply_of_error rfl hc]
      exact ⟨rfl, still_append still_release (still_note _)⟩
    | ok animation =>
      right
      obtain ⟨token, hk⟩ := Preview.token_of_ok hc
      refine ⟨?_, id, htarget, b.release.effects ++ onTarget { target := some id }
        ((Preview.properties config).map fun entry => .setStyle entry.1 entry.2), token,
        [.note (.previewBound (Preview.token? config) config.kind)], ⟨?_, ?_, ?_⟩, hk, ?_⟩
      · rw [hresult, apply_of_ok rfl hc]
        rfl
      · rw [heffects, apply_of_ok rfl hc, applyCalls, hk]
        simp [onTarget]
      · apply still_append still_release
        apply still_onTarget
        simp
      · exact still_note _
      · rw [callsTo_append, Appearance.applyAll_append, share_release h, callsTo_onTarget,
          if_pos rfl, Appearance.applyAll_setStyles]
        rfl

theorem starts_replay (h : b.Situation applied) :
    Operation.starts .replay (.success b.replay.result) = false ∧ Still b.replay.effects ∨
      Operation.starts .replay (.success b.replay.result) = true ∧
        ∃ config id, applied = some config ∧ b.replay.state.target = some id ∧
          StartsComplete (b.share applied) config id b.replay.effects := by
  cases h with
  | unbound ht hs hm =>
    left
    rw [replay_of_none (Or.inl ht)]
    exact ⟨rfl, still_nil⟩
  | bound ht ha hc hs hm =>
    left
    rw [replay_of_none (Or.inr (congrArg Marks.token hm))]
    exact ⟨rfl, still_nil⟩
  | @animating id config animation ht ha hc hs htoken hproperties =>
    right
    obtain ⟨token, hk⟩ := Preview.token_of_ok hc
    have hm : b.marks.token = some token := htoken.trans hk
    refine ⟨?_, config, id, ha, target_replay.trans ht, b.onTarget
      ((if b.marks.playState then [.removeStyle playStateName] else []) ++
        [.removeClass token, .reflow]), token, [.note (.replayed token (b.replays + 1))],
      ⟨?_, ?_, ?_⟩, hk, ?_⟩
    · rw [replay_of_some ht hm]
      rfl
    · rw [replay_of_some ht hm, replayCalls]
      simp [onTarget, ht]
    · apply still_onTarget
      split <;> simp
    · exact still_note _
    · rw [callsTo_onTarget, if_pos ht, ha, share_of_target ht, shown_of_ok hc, hk]
      cases hp : b.marks.playState with
      | true =>
        have hstyle := remove_playState_shownStyle (b := b) hc
        simp [Appearance.apply, hstyle]
      | false =>
        have hplay : b.playState? = none := by simp [playState?, hp]
        simp [Appearance.apply, shownStyle_of_none config hplay]

theorem still_hold {before after : PreviewState} {value : String} {note : Note} :
    Still (b.hold before after value note).effects := by
  unfold hold
  split
  · apply still_append _ (still_note _)
    apply still_onTarget
    simp
  · exact still_nil

/-- An operation starts the animation of the config applied last, complete, or adds no class. -/
theorem starts_perform (operation : Operation) (h : b.Situation applied) :
    operation.starts (b.perform operation).result = false ∧ Still (b.perform operation).effects ∨
      operation.starts (b.perform operation).result = true ∧
        ∃ config id, operation.config?.or applied = some config ∧
          (b.perform operation).state.target = some id ∧
          StartsComplete (b.share applied) config id (b.perform operation).effects := by
  cases operation with
  | bind config target =>
    rcases starts_bind config target h with hstill | ⟨hstarts, id, hid, hcomplete⟩
    · exact Or.inl hstill
    · exact Or.inr ⟨hstarts, config, id, rfl, hid, hcomplete⟩
  | rebind config =>
    rcases starts_bind config b.target h with hstill | ⟨hstarts, id, hid, hcomplete⟩
    · exact Or.inl hstill
    · exact Or.inr ⟨hstarts, config, id, rfl, hid, hcomplete⟩
  | replay => exact starts_replay h
  | pause => exact Or.inl ⟨rfl, still_hold⟩
  | resume => exact Or.inl ⟨rfl, still_hold⟩
  | unbind => exact Or.inl ⟨rfl, still_append still_release (still_note _)⟩

/-! Between two calls. -/

/-- Calls on one element, which add no class but one. -/
def Confined (target : Option ElementId) (token : Option String) (effects : List Effect) : Prop :=
  ∀ id call, .call id call ∈ effects →
    target = some id ∧ ∀ added, call = .addClass added → token = some added

/-- No element but one has a class, and no class but this one. -/
def OnlyOn (share : ElementId → Appearance) (target : Option ElementId) (token : Option String) :
    Prop :=
  ∀ id, (share id).classes.Sublist (if target = some id then token.toList else [])

theorem confined_nil {token : Option String} : Confined target token [] := by
  intro id call hm
  simp at hm

theorem confined_append {token : Option String} (h : Confined target token effects)
    (hlater : Confined target token later) : Confined target token (effects ++ later) := by
  intro id call hm
  rcases List.mem_append.mp hm with hm | hm
  · exact h id call hm
  · exact hlater id call hm

theorem confined_note {token : Option String} (note : Note) :
    Confined target token [.note note] := by
  intro id call hm
  simp at hm

theorem Confined.of_prefix {token : Option String} (h : Confined target token effects)
    (hdone : done <+: effects) : Confined target token done :=
  fun id call hm => h id call (hdone.subset hm)

theorem confined_onTarget {token : Option String}
    (h : ∀ added, .addClass added ∈ calls → token = some added) :
    Confined b.target token (b.onTarget calls) := by
  intro id call hm
  obtain ⟨ht, hm⟩ := mem_onTarget.mp hm
  refine ⟨ht, ?_⟩
  rintro added rfl
  exact h added hm

theorem confined_release : Confined b.target b.marks.token b.release.effects := by
  apply confined_onTarget
  intro added hm
  simp [Marks.removal_eq] at hm

theorem confined_apply :
    Confined b.target (b.apply config).state.marks.token (b.apply config).effects := by
  cases ht : b.target with
  | none =>
    rw [apply_of_target_none ht]
    exact confined_nil
  | some id =>
    cases hc : Animation.ofConfig config with
    | error cause =>
      rw [apply_of_error ht hc]
      exact confined_note _
    | ok animation =>
      rw [apply_of_ok ht hc, ← ht]
      apply confined_append _ (confined_note _)
      apply confined_onTarget
      intro added hm
      simpa [applyCalls] using hm

theorem classes_sublist_apply {a : Appearance} {token : Option String}
    (h : a.classes.Sublist token.toList)
    (hc : ∀ added, call = .addClass added → token = some added) :
    (a.apply call).classes.Sublist token.toList := by
  cases call with
  | addClass added =>
    rw [hc added rfl, Option.toList_some] at h ⊢
    by_cases hm : added ∈ a.classes
    · simpa [Appearance.apply, hm] using h
    · rcases List.sublist_singleton.mp h with hnone | hone
      · simp [Appearance.apply, hnone]
      · simp [hone] at hm
  | removeClass removed => exact List.filter_sublist.trans h
  | setStyle name value => exact h
  | removeStyle name => exact h
  | reflow => exact h

theorem classes_sublist_applyAll {a : Appearance} {token : Option String}
    (h : a.classes.Sublist token.toList)
    (hc : ∀ call ∈ calls, ∀ added, call = .addClass added → token = some added) :
    (a.applyAll calls).classes.Sublist token.toList := by
  induction calls generalizing a with
  | nil => exact h
  | cons call calls ih =>
    have hstep := classes_sublist_apply h (hc call List.mem_cons_self)
    exact ih hstep fun later hl => hc later (List.mem_cons_of_mem _ hl)

theorem onlyOn_applyAll {share : ElementId → Appearance} {token : Option String}
    (h : OnlyOn share target token) (hc : Confined target token effects) :
    OnlyOn (fun id => (share id).applyAll (callsTo id effects)) target token := by
  intro id
  have hshare := h id
  by_cases htarget : target = some id
  · rw [if_pos htarget] at hshare ⊢
    apply classes_sublist_applyAll hshare
    intro call hm
    exact (hc id call (mem_callsTo.mp hm)).2
  · have hnone : callsTo id effects = [] := by
      apply List.eq_nil_iff_forall_not_mem.mpr
      intro call hm
      exact htarget (hc id call (mem_callsTo.mp hm)).1
    simpa [hnone] using hshare

theorem onlyOn_share (h : b.Situation applied) :
    OnlyOn (b.share applied) b.target b.marks.token := by
  intro id
  by_cases htarget : b.target = some id
  · rw [if_pos htarget]
    cases h with
    | unbound ht => simp [ht] at htarget
    | bound ht ha hc hs hm =>
      rw [ha, share_of_target htarget, shown_of_error hc]
      exact List.nil_sublist _
    | animating ht ha hc hs htoken hproperties =>
      rw [ha, share_of_target htarget, shown_of_ok hc, htoken]
  · rw [share_of_target_ne htarget]
    exact List.nil_sublist _

theorem onlyOn_empty {token : Option String} {share : ElementId → Appearance}
    (h : ∀ id, share id = .empty) : OnlyOn share target token := by
  intro id
  rw [h id]
  exact List.nil_sublist _

/-- First the element that is let go of, and then the one that is held. -/
structure Phases (b b' : Binder) (applied : Option Config) (earlier later : List Effect) :
    Prop where
  first : Confined b.target b.marks.token earlier
  second : Confined b'.target b'.marks.token later
  /-- Between the two, nothing is left but what the second may show. -/
  between : OnlyOn (fun id => (b.share applied id).applyAll (callsTo id earlier)) b'.target
    b'.marks.token

theorem phases_release (h : b.Situation applied) {b' : Binder}
    (hlater : Confined b'.target b'.marks.token later) :
    b.Phases b' applied b.release.effects later :=
  ⟨confined_release, hlater, onlyOn_empty fun _ => share_release h⟩

/-- What keeps element and class has one phase. -/
theorem phases_same (h : b.Situation applied) {b' : Binder} (ht : b'.target = b.target)
    (hm : b'.marks.token = b.marks.token) (hc : Confined b.target b.marks.token later) :
    b.Phases b' applied [] later := by
  refine ⟨confined_nil, ?_, ?_⟩
  · rwa [ht, hm]
  · rw [ht, hm]
    exact onlyOn_share h

theorem phases_replay (h : b.Situation applied) :
    b.Phases b.replay.state applied [] b.replay.effects := by
  cases ht : b.target with
  | none =>
    rw [replay_of_none (Or.inl ht)]
    exact phases_same h rfl rfl confined_nil
  | some id =>
    cases hm : b.marks.token with
    | none =>
      rw [replay_of_none (Or.inr hm)]
      exact phases_same h rfl rfl confined_nil
    | some token =>
      rw [replay_of_some ht hm]
      refine phases_same h ?_ ?_ ?_
      · rfl
      · rfl
      apply confined_append _ (confined_note _)
      apply confined_onTarget
      intro added ha
      have ha : added = token := by simpa [replayCalls] using ha
      rw [ha]
      exact hm

theorem phases_hold {before after : PreviewState} {value : String} {note : Note}
    (h : b.Situation applied) :
    b.Phases (b.hold before after value note).state applied []
      (b.hold before after value note).effects := by
  unfold hold
  split
  · refine phases_same h ?_ ?_ ?_
    · rfl
    · rfl
    apply confined_append _ (confined_note _)
    apply confined_onTarget
    simp
  · exact phases_same h rfl rfl confined_nil

theorem phases_perform (operation : Operation) (h : b.Situation applied) :
    ∃ earlier later, (b.perform operation).effects = earlier ++ later ∧
      b.Phases (b.perform operation).state applied earlier later := by
  cases operation with
  | bind config target =>
    refine ⟨b.release.effects, _, rfl, phases_release h ?_⟩
    have htarget : (b.bind config target).state.target = target := apply_target
    simp only [perform, Outcome.map, htarget]
    exact confined_apply
  | rebind config =>
    refine ⟨b.release.effects, _, rfl, phases_release h ?_⟩
    have htarget : (b.rebind config).state.target = b.target := apply_target
    simp only [perform, Outcome.map, htarget]
    exact confined_apply
  | replay => exact ⟨[], _, rfl, phases_replay h⟩
  | pause => exact ⟨[], _, rfl, phases_hold h⟩
  | resume => exact ⟨[], _, rfl, phases_hold h⟩
  | unbind => exact ⟨b.release.effects, _, rfl, phases_release h (confined_note _)⟩

/-- Whatever calls are done, what is seen of a binder is one class on one element at most. -/
theorem Phases.onlyOn {b' : Binder} {earlier : List Effect} (h : b.Phases b' applied earlier later)
    (hsituation : b.Situation applied) (hdone : done <+: earlier ++ later) :
    ∃ target token, OnlyOn (fun id => (b.share applied id).applyAll (callsTo id done)) target
      token := by
  rcases List.prefix_or_prefix_of_prefix hdone (List.prefix_append earlier later) with
    hearly | ⟨more, rfl⟩
  · exact ⟨_, _, onlyOn_applyAll (onlyOn_share hsituation) (h.first.of_prefix hearly)⟩
  · have hmore : more <+: later := (List.prefix_append_right_inj earlier).mp hdone
    have hlater := onlyOn_applyAll h.between (h.second.of_prefix hmore)
    refine ⟨b'.target, b'.marks.token, ?_⟩
    simpa only [callsTo_append, Appearance.applyAll_append] using hlater

end Binder

namespace Page

variable {page : Page}

/-- No more than one element has a class of a preview, and it has no more than one. -/
structure OneClass (page : Page) : Prop where
  element : ∀ {id id' : ElementId} {found found' : PageElement}, page.elements[id]? = some found →
    page.elements[id']? = some found' →
    found.element.classes.filter Preview.names.ofClass ≠ [] →
    found'.element.classes.filter Preview.names.ofClass ≠ [] → id = id'
  token : ∀ {id : ElementId} {found : PageElement}, page.elements[id]? = some found →
    (found.element.classes.filter Preview.names.ofClass).length ≤ 1

theorem oneClass_of_shows {share : ElementId → Appearance} {target : Option ElementId}
    {token : Option String} (hpage : page.Shows Preview.names share)
    (h : Binder.OnlyOn share target token) : page.OneClass := by
  have hclasses : ∀ {id found}, page.elements[id]? = some found →
      found.element.classes.filter Preview.names.ofClass = (share id).classes := by
    intro id found hf
    exact congrArg Appearance.classes (hpage id found hf).2.2
  constructor
  · intro id id' found found' hf hf' hne hne'
    rw [hclasses hf] at hne
    rw [hclasses hf'] at hne'
    have hon : ∀ element, (share element).classes ≠ [] → target = some element := by
      intro element hne
      by_contra htarget
      have hnone := h element
      rw [if_neg htarget] at hnone
      exact hne (List.sublist_nil.mp hnone)
    exact Option.some.inj ((hon id hne).symm.trans (hon id' hne'))
  · intro id found hf
    have hlength := (h id).length_le
    rw [hclasses hf]
    split at hlength
    · exact Nat.le_trans hlength (by cases token <;> simp)
    · exact Nat.le_trans hlength (Nat.zero_le _)

/-- The calls of one step of a binder, one by one: `target` is its element before the step,
`target'` the one after it, and `applied` the config given last. -/
structure Orderly (page : Page) (effects : List Effect) (target target' : Option ElementId)
    (applied : Option Config) : Prop where
  /-- So it is between any two calls. -/
  alone : ∀ {done}, done <+: effects → (page.performAll done).OneClass
  /-- No call on the element before comes after one on another element. -/
  ordered : ∃ earlier later, effects = earlier ++ later ∧
    (∀ id call, .call id call ∈ earlier → target = some id) ∧
    ∀ id call, .call id call ∈ later → target' = some id
  /-- The element has the properties of the config then, no play state and no other class. -/
  complete : ∀ {done id token rest found},
    effects = done ++ .call id (.addClass token) :: rest →
    (page.performAll done).elements[id]? = some found →
    ∃ config, applied = some config ∧ Preview.token? config = some token ∧
      found.element.classes.filter Preview.names.ofClass = [] ∧
      (found.element.style.keep Preview.names.ofStyle).Perm (Preview.properties config) ∧
      playStateName ∉ found.element.style.map (·.1)

end Page

namespace Binder

variable {b : Binder} {applied : Option Config} {page : Page} {config : Config}

theorem StartsComplete.complete {share : ElementId → Appearance} {found : PageElement}
    (h : StartsComplete share config element effects)
    (hpage : ∀ done, done <+: effects →
      (page.performAll done).Shows Preview.names fun id => (share id).applyAll (callsTo id done))
    (heffects : effects = done ++ .call id (.addClass token) :: rest)
    (hfound : (page.performAll done).elements[id]? = some found) :
    Preview.token? config = some token ∧
      found.element.classes.filter Preview.names.ofClass = [] ∧
      (found.element.style.keep Preview.names.ofStyle).Perm (Preview.properties config) ∧
      playStateName ∉ found.element.style.map (·.1) := by
  obtain ⟨before, started, after, hlaunch, hk, hready⟩ := h
  obtain ⟨rfl, rfl, rfl⟩ := hlaunch.unique heffects
  have hshows : found.appearance.within Preview.names =
      (share id).applyAll (callsTo id done) :=
    (hpage done ⟨_, heffects.symm⟩ id found hfound).2.2
  rw [hready] at hshows
  obtain ⟨hclasses, hstyle⟩ := Appearance.mk.inj hshows
  obtain ⟨family, hkind⟩ := Preview.kind_of_token hk
  have hnodup := List.nodup_append.mp (Preview.nodup_properties hkind)
  have hperm : (found.element.style.keep Preview.names.ofStyle).Perm (Preview.properties config) :=
    hstyle ▸ InlineStyle.ofList_perm hnodup.1
  refine ⟨hk, hclasses, hperm, ?_⟩
  intro hplay
  obtain ⟨entry, he, hname⟩ := List.mem_map.mp hplay
  have hkept : entry ∈ found.element.style.keep Preview.names.ofStyle :=
    InlineStyle.mem_keep.mpr ⟨he, hname ▸ Preview.ofStyle_playStateName⟩
  exact hnodup.2.2 _ (List.mem_map_of_mem (hperm.subset hkept)) _ (by simp) hname

/-- In the middle of an operation a page shows what the calls so far have made of its start. -/
theorem shows_done (operation : Operation) (h : b.Situation applied)
    (hpage : page.Shows Preview.names (b.share applied)) :
    ∀ done, done <+: (b.perform operation).effects →
      (page.performAll done).Shows Preview.names
        fun id => (b.share applied id).applyAll (callsTo id done) := by
  intro done hdone
  apply Page.shows_performAll hpage
  intro id call hc
  have hmem : call ∈ callsTo id (b.perform operation).effects :=
    mem_callsTo.mpr (hdone.subset (mem_callsTo.mp hc))
  exact covers_perform (within_of_situation h) hmem

theorem orderly_perform (operation : Operation) (h : b.Situation applied)
    (hpage : page.Shows Preview.names (b.share applied)) :
    page.Orderly (b.perform operation).effects b.target (b.perform operation).state.target
      (operation.config?.or applied) := by
  have hshows := shows_done operation h hpage
  obtain ⟨earlier, later, heffects, hphases⟩ := phases_perform operation h
  refine ⟨?_, ?_, ?_⟩
  · intro done hdone
    obtain ⟨target, token, honly⟩ := hphases.onlyOn h (heffects ▸ hdone)
    exact Page.oneClass_of_shows (hshows done hdone) honly
  · exact ⟨earlier, later, heffects, fun id call hm => (hphases.first id call hm).1,
      fun id call hm => (hphases.second id call hm).1⟩
  · intro done id token rest found hstart hfound
    rcases starts_perform operation h with
      ⟨-, hstill⟩ | ⟨-, config, element, happlied, -, hcomplete⟩
    · refine (hstill id token ?_).elim
      rw [hstart]
      simp
    · exact ⟨config, happlied, hcomplete.complete hshows hstart hfound⟩

/-- A binder that goes away starts nothing. -/
theorem orderly_drop (h : b.Situation applied)
    (hpage : page.Shows Preview.names (b.share applied)) :
    page.Orderly b.drop b.target none applied := by
  have hphases : b.Phases {} applied b.release.effects [] := phases_release h confined_nil
  refine ⟨?_, ?_, ?_⟩
  · intro done hdone
    have hall : done <+: b.release.effects ++ [] := by rwa [List.append_nil]
    obtain ⟨target, token, honly⟩ := hphases.onlyOn h hall
    refine Page.oneClass_of_shows (Page.shows_performAll hpage ?_) honly
    intro id call hc
    have hmem : call ∈ callsTo id b.release.effects :=
      mem_callsTo.mpr (hdone.subset (mem_callsTo.mp hc))
    exact covers_release (within_of_situation h) hmem
  · exact ⟨b.drop, [], (List.append_nil _).symm, fun id call hm => (hphases.first id call hm).1,
      by simp⟩
  · intro done id token rest found hstart hfound
    refine (still_release (b := b) id token ?_).elim
    change b.release.effects = _ at hstart
    rw [hstart]
    simp

end Binder

namespace Scene

variable {page : Page} {steps : List Step}

/-- After any operations of a binder, among calls of the page that keep off the names of previews,
the next operation makes its calls in order: the page goes from the one state to the next by calls
between which no two classes are seen, and a class is added last. -/
theorem orderly_run (hcomplies : page.Complies) (hpage : page.Untouched)
    (hsolo : ∀ step ∈ steps, step.IsSolo) (hcourteous : ∀ step ∈ steps, step.Courteous) :
    ∃ b, (run ⟨[{}], page⟩ steps).binders = [b] ∧
      ∀ {step b' effects}, step.Turns 0 b b' effects →
        run ⟨[{}], page⟩ (steps ++ [step]) =
            ⟨[b'], (run ⟨[{}], page⟩ steps).page.performAll effects⟩ ∧
          (run ⟨[{}], page⟩ steps).page.Orderly effects b.target b'.target
            (lastConfig (steps ++ [step])) := by
  obtain ⟨b, hb, hsituation, hshows⟩ := solo_run hcomplies hpage hsolo hcourteous
  refine ⟨b, hb, ?_⟩
  intro step b' effects hturns
  rw [run_append_singleton, lastConfig_append_singleton]
  cases hturns with
  | operate operation =>
    refine ⟨?_, Binder.orderly_perform operation hsituation hshows⟩
    simp [perform, hb]
  | renew =>
    refine ⟨?_, Binder.orderly_drop hsituation hshows⟩
    simp [perform, hb]

theorem solo_pausedAndMoved : ∀ step ∈ pausedAndMoved, step.IsSolo := by
  simp [pausedAndMoved, Step.IsSolo]

theorem courteous_pausedAndMoved : ∀ step ∈ pausedAndMoved, step.Courteous := by
  simp [pausedAndMoved, Step.Courteous, Names.covers, Names.others, Preview.names, playStateName]
  decide

/-- A fade comes to the first element while the slide is held on the second. -/
theorem orderly_run_fade :
    twoElements.Complies ∧ twoElements.Untouched ∧ (∀ step ∈ pausedAndMoved, step.IsSolo) ∧
      (∀ step ∈ pausedAndMoved, step.Courteous) ∧
      ∃ b, (run ⟨[{}], twoElements⟩ pausedAndMoved).binders = [b] ∧
        (run ⟨[{}], twoElements⟩ pausedAndMoved).page.Orderly
          (b.perform (.bind .default (some 0))).effects b.target
          (b.perform (.bind .default (some 0))).state.target
          (lastConfig (pausedAndMoved ++ [.operate 0 (.bind .default (some 0))])) := by
  obtain ⟨b, hb, hnext⟩ := orderly_run complies_twoElements untouched_twoElements
    solo_pausedAndMoved courteous_pausedAndMoved
  have hbind := hnext (.operate (.bind .default (some 0)))
  exact ⟨complies_twoElements, untouched_twoElements, solo_pausedAndMoved,
    courteous_pausedAndMoved, b, hb, hbind.2⟩

end Scene
end AnimationKit
