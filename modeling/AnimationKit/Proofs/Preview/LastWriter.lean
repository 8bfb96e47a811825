import AnimationKit.Proofs.Preview.Sharing
import Mathlib.Data.List.Nodup

/-!
What is left on an element of the config that was put there last. A binder that lets go takes off
what it tracks by its name, even if another binder has written it since; so the last config stays in
place as far as no binder lets go of the names in it.
-/
namespace AnimationKit

namespace InlineStyle

variable {style : InlineStyle} {name name' value value' : String} {entries : List (String × String)}

theorem mem_set_of_ne (h : name' ≠ name) :
    (name, value) ∈ style.set name' value' ↔ (name, value) ∈ style := by
  have hother : (name' == name) = false := by simpa using h
  have hkeep : (style.set name' value').keep (· == name) = style.keep (· == name) :=
    keep_set_of_not_own hother
  have hmem (style : InlineStyle) :
      (name, value) ∈ style ↔ (name, value) ∈ style.keep (· == name) := by simp
  rw [hmem, hkeep, ← hmem]

/-- What was set is there with its value, and what was not set is as it was. -/
theorem mem_foldl_set {entry : String × String} (h : style.Ascending)
    (hnodup : (entries.map (·.1)).Nodup) :
    entry ∈ entries.foldl (fun style entry => style.set entry.1 entry.2) style ↔
      entry ∈ entries ∨ entry ∈ style ∧ entry.1 ∉ entries.map (·.1) := by
  induction entries generalizing style with
  | nil => simp
  | cons first entries ih =>
    rw [List.map_cons, List.nodup_cons] at hnodup
    obtain ⟨hfirst, hnodup⟩ := hnodup
    rw [List.foldl_cons, ih (ascending_set h) hnodup, mem_set_iff h, List.mem_cons, List.map_cons,
      List.mem_cons, not_or]
    constructor
    · rintro (hm | ⟨rfl | ⟨hm, hne⟩, hnot⟩)
      · exact Or.inl (Or.inr hm)
      · exact Or.inl (Or.inl rfl)
      · exact Or.inr ⟨hm, hne, hnot⟩
    · rintro ((rfl | hm) | ⟨hm, hne, hnot⟩)
      · exact Or.inr ⟨Or.inl rfl, hfirst⟩
      · exact Or.inl hm
      · exact Or.inr ⟨Or.inr ⟨hm, hne⟩, hnot⟩

end InlineStyle

namespace Appearance

variable {a : Appearance} {calls : List ElementCall} {name value token : String}

theorem mem_style_applyAll (h : ∀ call ∈ calls, call.writes? ≠ some (.property name)) :
    (name, value) ∈ (a.applyAll calls).style ↔
      (name, value) ∈ a.style ∧ ∀ call ∈ calls, call.erases? ≠ some (.property name) := by
  induction calls generalizing a with
  | nil => simp
  | cons call calls ih =>
    rw [List.forall_mem_cons] at h
    rw [applyAll_cons, ih h.2, List.forall_mem_cons, ← and_assoc]
    refine and_congr_left fun _ => ?_
    cases call with
    | addClass token =>
      by_cases hm : token ∈ a.classes <;> simp [apply, hm, ElementCall.erases?]
    | removeClass token => simp [apply, ElementCall.erases?]
    | setStyle name' value' =>
      have hne : name' ≠ name := by simpa [ElementCall.writes?] using h.1
      simp [apply, InlineStyle.mem_set_of_ne hne, ElementCall.erases?]
    | removeStyle name' => simp [apply, InlineStyle.remove, ElementCall.erases?, ne_comm (a := name)]
    | reflow => simp [apply, ElementCall.erases?]

theorem mem_classes_applyAll (h : ∀ call ∈ calls, call.writes? ≠ some (.token token)) :
    token ∈ (a.applyAll calls).classes ↔
      token ∈ a.classes ∧ ∀ call ∈ calls, call.erases? ≠ some (.token token) := by
  induction calls generalizing a with
  | nil => simp
  | cons call calls ih =>
    rw [List.forall_mem_cons] at h
    rw [applyAll_cons, ih h.2, List.forall_mem_cons, ← and_assoc]
    refine and_congr_left fun _ => ?_
    cases call with
    | addClass other =>
      have hne : other ≠ token := by simpa [ElementCall.writes?] using h.1
      by_cases hm : other ∈ a.classes <;> simp [apply, hm, ElementCall.erases?, hne.symm]
    | removeClass other => simp [apply, ElementCall.erases?, ne_comm (a := token)]
    | setStyle name' value' => simp [apply, ElementCall.erases?]
    | removeStyle name' => simp [apply, ElementCall.erases?]
    | reflow => simp [apply, ElementCall.erases?]

end Appearance

namespace Marks

variable {marks : Marks} {trace : Trace}

theorem writes_removal : ∀ call ∈ marks.removal, call.writes? ≠ some trace := by
  rw [removal_eq, List.forall_mem_append, List.forall_mem_map, List.forall_mem_map]
  simp [ElementCall.writes?]

theorem erases_removal :
    (∀ call ∈ marks.removal, call.erases? ≠ some trace) ↔ ¬ marks.Records trace := by
  rw [removal_eq, List.forall_mem_append, List.forall_mem_map, List.forall_mem_map]
  cases trace with
  | token token => cases h : marks.token <;> simp [Records, ElementCall.erases?, h]
  | property name =>
    have hforall : (∀ other ∈ marks.styleNames, other ≠ name) ↔ name ∉ marks.styleNames :=
      ⟨fun h hm => h name hm rfl, fun h other hm he => h (he ▸ hm)⟩
    simpa [Records, ElementCall.erases?] using hforall

end Marks

/-- An element loses some of what it carries of previews, the play state aside, and has some classes
put on. -/
structure Loses (a a' : Appearance) (shed : Trace → Prop) (worn : String → Prop) : Prop where
  style : ∀ {name value}, Preview.names.ofStyle name = true → name ≠ playStateName →
    ((name, value) ∈ a'.style ↔ (name, value) ∈ a.style ∧ ¬ shed (.property name))
  classes : ∀ {token}, Preview.names.ofClass token = true →
    (token ∈ a'.classes ↔ worn token ∨ token ∈ a.classes ∧ ¬ shed (.token token))

section loses

variable {a a' a'' : Appearance} {shed shed' : Trace → Prop} {worn worn' : String → Prop}

theorem Loses.congr (h : Loses a a' shed worn) (hshed : ∀ trace, shed' trace ↔ shed trace)
    (hworn : ∀ token, worn' token ↔ worn token) : Loses a a' shed' worn' := by
  refine ⟨fun ho hname => ?_, fun ho => ?_⟩
  · rw [hshed]
    exact h.style ho hname
  · rw [hshed, hworn]
    exact h.classes ho

/-- What is put on first may be lost later. -/
theorem Loses.trans (h : Loses a a' shed worn) (h' : Loses a' a'' shed' worn') :
    Loses a a'' (fun trace => shed trace ∨ shed' trace)
      (fun token => worn' token ∨ worn token ∧ ¬ shed' (.token token)) := by
  refine ⟨fun ho hname => ?_, fun ho => ?_⟩
  · rw [h'.style ho hname, h.style ho hname, not_or, and_assoc]
  · rw [h'.classes ho, h.classes ho, not_or]
    tauto

theorem loses_nothing : Loses a a (fun _ => False) (fun _ => False) := by
  constructor <;> simp

/-- The page has other names. -/
theorem loses_touch {call : ElementCall} (hc : Preview.names.others.covers call = true) :
    Loses a (a.apply call) (fun _ => False) (fun _ => False) := by
  have hwithin := Appearance.within_apply_of_others (a := a) hc
  obtain ⟨hclasses, hstyle⟩ := Appearance.mk.inj hwithin
  refine ⟨fun {name value} ho _ => ?_, fun {token} ho => ?_⟩
  · have hmem (style : InlineStyle) :
        (name, value) ∈ style ↔ (name, value) ∈ style.keep Preview.names.ofStyle := by simp [ho]
    simp only [not_false_eq_true, and_true]
    rw [hmem, hstyle, ← hmem]
  · have hmem (classes : List String) :
        token ∈ classes ↔ token ∈ classes.filter Preview.names.ofClass := by simp [ho]
    simp only [not_false_eq_true, and_true, false_or]
    rw [hmem, hclasses, ← hmem]

end loses

/-- The play state is no property of a config. -/
theorem Preview.ne_playStateName {config : Config} {animation : Animation}
    {entry : String × String} (hc : Animation.ofConfig config = .ok animation)
    (h : entry ∈ properties config) : entry.1 ≠ playStateName := by
  obtain ⟨family, hkind⟩ := Animation.kind_of_ok hc
  have hnodup := nodup_properties hkind
  rw [List.nodup_append] at hnodup
  exact hnodup.2.2 _ (List.mem_map_of_mem h) _ (by simp)

namespace Binder

variable {b : Binder} {a : Appearance} {id : ElementId} {config : Config} {animation : Animation}

/-- Letting go takes off what is tracked, and nothing else. -/
theorem loses_release :
    Loses a (a.applyAll (callsTo id b.release.effects)) (b.Tracks id) (fun _ => False) := by
  rw [callsTo_release]
  by_cases ht : b.target = some id
  · rw [if_pos ht]
    refine ⟨fun _ _ => ?_, fun _ => ?_⟩
    · rw [Appearance.mem_style_applyAll Marks.writes_removal, Marks.erases_removal]
      simp only [Tracks, ht, true_and]
    · rw [Appearance.mem_classes_applyAll Marks.writes_removal, Marks.erases_removal]
      simp only [Tracks, ht, true_and, false_or]
  · rw [if_neg ht]
    exact loses_nothing.congr (by simp [Tracks, ht]) (by simp)

theorem loses_replayCalls {marks : Marks} {own : String} :
    Loses a (a.applyAll (replayCalls marks own)) (fun _ => False) (fun token => token = own) := by
  refine ⟨fun _ hname => ?_, fun {token} _ => ?_⟩
  · cases hp : marks.playState <;>
      simp [replayCalls, hp, Appearance.apply, InlineStyle.remove, hname]
  · by_cases he : token = own <;> cases hp : marks.playState <;>
      simp [replayCalls, hp, Appearance.apply, he]

/-- A replay puts the class on that it starts over. -/
theorem loses_replay : Loses a (a.applyAll (callsTo id b.replay.effects)) (fun _ => False)
    (fun token => b.Tracks id (.token token)) := by
  cases ht : b.target with
  | none =>
    rw [replay_of_none (Or.inl ht)]
    exact loses_nothing.congr (by simp) (by simp [Tracks, ht])
  | some element =>
    cases hm : b.marks.token with
    | none =>
      rw [replay_of_none (Or.inr hm)]
      exact loses_nothing.congr (by simp) (by simp [Tracks, Marks.Records, hm])
    | some own =>
      rw [callsTo_replay ht hm]
      by_cases he : b.target = some id
      · rw [if_pos he]
        exact loses_replayCalls.congr (by simp) (by simp [Tracks, he, Marks.Records, hm, eq_comm])
      · rw [if_neg he]
        exact loses_nothing.congr (by simp) (by simp [Tracks, he])

/-- Pausing and resuming touch the play state only. -/
theorem loses_hold {before after : PreviewState} {play : String} {note : Note} :
    Loses a (a.applyAll (callsTo id (b.hold before after play note).effects)) (fun _ => False)
      (fun _ => False) := by
  unfold hold
  split
  · by_cases ht : b.target = some id
    · refine ⟨fun _ hname => ?_, fun _ => ?_⟩
      · simp [ht, Appearance.apply, InlineStyle.mem_set_of_ne hname.symm]
      · simp [ht, Appearance.apply]
    · simpa [ht] using loses_nothing
  · exact loses_nothing

/-- The operation begins with letting go. -/
def Operation.releases : Operation → Bool
  | .bind .. | .rebind _ | .unbind => true
  | .replay | .pause | .resume => false

/-- The binder puts a config that has an animation on the element. -/
def Writes (b : Binder) (operation : Operation) (id : ElementId) (config : Config) : Prop :=
  (∃ animation, Animation.ofConfig config = .ok animation) ∧
    (operation = .bind config (some id) ∨ operation = .rebind config ∧ b.target = some id)

theorem callsTo_apply_of_not (h : ∀ animation, Animation.ofConfig config = .ok animation →
    b.target ≠ some id) : callsTo id (b.apply config).effects = [] := by
  cases hc : Animation.ofConfig config with
  | error cause => exact callsTo_apply_of_error hc
  | ok animation => rw [callsTo_apply_of_ok hc, if_neg (h animation hc)]

/-- An operation that puts no config on the element lets go of it or starts its class over. -/
theorem loses_perform {operation : Operation} (hquiet : ∀ config, ¬ b.Writes operation id config) :
    Loses a (a.applyAll (callsTo id (b.perform operation).effects))
      (fun trace => operation.releases = true ∧ b.Tracks id trace)
      (fun token => operation = .replay ∧ b.Tracks id (.token token)) := by
  cases operation with
  | bind config target =>
    have hcalls : callsTo id (b.bind config target).effects = callsTo id b.release.effects := by
      rw [callsTo_bind, callsTo_apply_of_not, List.append_nil]
      rintro animation hc rfl
      exact hquiet config ⟨⟨animation, hc⟩, Or.inl rfl⟩
    change Loses a (a.applyAll (callsTo id (b.bind config target).effects)) _ _
    rw [hcalls]
    exact loses_release.congr (by simp [Operation.releases]) (by simp)
  | rebind config =>
    have hcalls : callsTo id (b.rebind config).effects = callsTo id b.release.effects := by
      rw [callsTo_rebind, callsTo_apply_of_not, List.append_nil]
      exact fun animation hc ht => hquiet config ⟨⟨animation, hc⟩, Or.inr ⟨rfl, ht⟩⟩
    change Loses a (a.applyAll (callsTo id (b.rebind config).effects)) _ _
    rw [hcalls]
    exact loses_release.congr (by simp [Operation.releases]) (by simp)
  | unbind =>
    change Loses a (a.applyAll (callsTo id b.unbind.effects)) _ _
    rw [callsTo_unbind]
    exact loses_release.congr (by simp [Operation.releases]) (by simp)
  | replay => exact loses_replay.congr (by simp [Operation.releases]) (by simp)
  | pause => exact loses_hold.congr (by simp [Operation.releases]) (by simp)
  | resume => exact loses_hold.congr (by simp [Operation.releases]) (by simp)

/-- Other operations leave the record of what was put on as it is. -/
theorem record_perform {operation : Operation} (h : operation.releases = false) :
    (b.perform operation).state.target = b.target ∧
      (b.perform operation).state.marks.token = b.marks.token ∧
      (b.perform operation).state.marks.properties = b.marks.properties := by
  have hhold (before after : PreviewState) (play : String) (note : Note) :
      (b.hold before after play note).state.target = b.target ∧
        (b.hold before after play note).state.marks.token = b.marks.token ∧
        (b.hold before after play note).state.marks.properties = b.marks.properties := by
    unfold hold
    split <;> exact ⟨rfl, rfl, rfl⟩
  cases operation with
  | bind | rebind | unbind => cases h
  | pause => exact hhold ..
  | resume => exact hhold ..
  | replay =>
    change b.replay.state.target = _ ∧ b.replay.state.marks.token = _ ∧
      b.replay.state.marks.properties = _
    unfold replay
    split <;> exact ⟨rfl, rfl, rfl⟩

/-- A config that is put on the element is all there, whatever was there before. -/
theorem carries_perform {operation : Operation} (h : b.Writes operation id config)
    (hascending : a.style.Ascending) :
    (∀ entry ∈ Preview.properties config, ∀ value,
      ((entry.1, value) ∈ (a.applyAll (callsTo id (b.perform operation).effects)).style ↔
        value = entry.2)) ∧
      ∀ token, Preview.token? config = some token →
        token ∈ (a.applyAll (callsTo id (b.perform operation).effects)).classes := by
  obtain ⟨⟨animation, hc⟩, hoperation⟩ := h
  obtain ⟨family, hkind⟩ := Animation.kind_of_ok hc
  have hnodup : ((Preview.properties config).map (·.1)).Nodup :=
    (List.nodup_append.mp (Preview.nodup_properties hkind)).1
  have hcalls : callsTo id (b.perform operation).effects =
      callsTo id b.release.effects ++ applyCalls config := by
    rcases hoperation with rfl | ⟨rfl, ht⟩
    · refine callsTo_bind.trans ?_
      rw [callsTo_apply_of_ok hc, if_pos rfl]
    · refine callsTo_rebind.trans ?_
      have ht : b.release.state.target = some id := ht
      rw [callsTo_apply_of_ok hc, if_pos ht]
  have hascending : (a.applyAll (callsTo id b.release.effects)).style.Ascending :=
    Appearance.ascending_applyAll hascending
  rw [hcalls, Appearance.applyAll_append]
  generalize a.applyAll (callsTo id b.release.effects) = released at hascending
  rw [applyCalls, Appearance.applyAll_append, Appearance.applyAll_setStyles]
  refine ⟨fun entry hentry value => ?_, fun token htoken => ?_⟩
  · have hwrites : ∀ call ∈ (Preview.token? config).toList.map ElementCall.addClass,
        call.writes? ≠ some (.property entry.1) := by
      simp [ElementCall.writes?]
    have herases : ∀ call ∈ (Preview.token? config).toList.map ElementCall.addClass,
        call.erases? ≠ some (.property entry.1) := by
      simp [ElementCall.erases?]
    have hname : entry.1 ∈ (Preview.properties config).map (·.1) := List.mem_map_of_mem hentry
    rw [Appearance.mem_style_applyAll hwrites, InlineStyle.mem_foldl_set hascending hnodup]
    constructor
    · rintro ⟨hmem | ⟨-, hnot⟩, -⟩
      · exact congrArg Prod.snd (List.inj_on_of_nodup_map hnodup hmem hentry rfl)
      · exact (hnot hname).elim
    · rintro rfl
      exact ⟨Or.inl hentry, herases⟩
  · by_cases hm : token ∈ released.classes <;> simp [htoken, Appearance.apply, hm]

end Binder

namespace Scene

variable {scene : Scene} {step : Step} {steps : List Step} {id : ElementId} {index : Nat}
  {b b' : Binder} {effects : List Effect} {a : Appearance}

/-! One step. -/

/-- The step makes the binder with this number let go. -/
def Step.Releases (index : Nat) : Step → Prop
  | .operate i operation => i = index ∧ operation.releases = true
  | .renew i => i = index
  | .touch .. => False

/-- A binder that tracks it on the element lets go of the element. -/
def Sheds (scene : Scene) (step : Step) (id : ElementId) (trace : Trace) : Prop :=
  ∃ index b, scene.binders[index]? = some b ∧ step.Releases index ∧ b.Tracks id trace

/-- A binder that has put this class on the element starts it over. -/
def Restarts (scene : Scene) (step : Step) (id : ElementId) (token : String) : Prop :=
  ∃ index b, scene.binders[index]? = some b ∧ step = .operate index .replay ∧
    b.Tracks id (.token token)

/-- The binder with this number puts a config that has an animation on the element. -/
def Writes (scene : Scene) (step : Step) (index : Nat) (id : ElementId) (config : Config) : Prop :=
  ∃ b operation, scene.binders[index]? = some b ∧ step = .operate index operation ∧
    b.Writes operation id config

theorem config?_of_writes {config : Config} (h : scene.Writes step index id config) :
    step.config? = some config := by
  obtain ⟨b, operation, -, rfl, -, rfl | ⟨rfl, -⟩⟩ := h <;> rfl

/-- The element is there, does what it is asked to do, and looks like this. -/
def Wears (scene : Scene) (id : ElementId) (a : Appearance) : Prop :=
  ∃ target, scene.page.elements[id]? = some target ∧ target.Complies ∧ target.appearance = a

theorem wears_performAll {page : Page} {binders binders' : List Binder}
    (h : Wears ⟨binders, page⟩ id a) :
    Wears ⟨binders', page.performAll effects⟩ id (a.applyAll (callsTo id effects)) := by
  obtain ⟨target, ht, hcomplies, rfl⟩ := h
  refine ⟨target.takeAll (callsTo id effects), ?_, PageElement.complies_takeAll hcomplies,
    PageElement.appearance_takeAll hcomplies⟩
  rw [Page.getElem?_performAll, ht, Option.map_some]

theorem wears_touch {element : ElementId} {call : ElementCall} (h : scene.Wears id a) :
    (scene.perform (.touch element call)).1.Wears id (if element = id then a.apply call else a) := by
  obtain ⟨target, ht, hcomplies, rfl⟩ := h
  refine ⟨if element = id then { target with element := target.element.apply call } else target,
    ?_, ?_, ?_⟩
  · exact Page.getElem?_touch.trans (congrArg (Option.map _) ht)
  · split
    · exact hcomplies
    · exact hcomplies
  · split
    · exact PageElement.appearance_touched
    · rfl

theorem wears_perform (h : scene.Wears id a) (step : Step) :
    ∃ a', (scene.perform step).1.Wears id a' := by
  rcases perform_cases scene step with ⟨hscene, -⟩ | ⟨index, b, b', effects, -, -, hscene, -⟩ |
    ⟨element, call, rfl⟩
  · rw [hscene]
    exact ⟨a, h⟩
  · rw [hscene]
    exact ⟨_, wears_performAll h⟩
  · exact ⟨_, wears_touch h⟩

theorem wears_run (h : scene.Wears id a) (steps : List Step) :
    ∃ a', (scene.run steps).Wears id a' := by
  induction steps generalizing scene a with
  | nil => exact ⟨a, h⟩
  | cons step steps ih =>
    obtain ⟨a', h'⟩ := wears_perform h step
    exact ih h'

/-- A step that puts no config on an element takes off what the binder tracks that lets go, and puts
on the class of the binder that starts over. -/
theorem loses_perform (hwears : scene.Wears id a)
    (hquiet : ∀ index config, ¬ scene.Writes step index id config)
    (hcourteous : step.Courteous) :
    ∃ a', (scene.perform step).1.Wears id a' ∧
      Loses a a' (scene.Sheds step id) (scene.Restarts step id) := by
  cases step with
  | operate index operation =>
    cases hb : scene.binders[index]? with
    | none =>
      refine ⟨a, by simpa [perform, hb] using hwears, loses_nothing.congr (fun trace => ?_)
        fun token => ?_⟩
      · simp only [Sheds, Step.Releases, iff_false]
        rintro ⟨_, b, hb', ⟨rfl, -⟩, -⟩
        rw [hb] at hb'
        cases hb'
      · simp only [Restarts, iff_false]
        rintro ⟨_, b, hb', hstep, -⟩
        cases hstep
        rw [hb] at hb'
        cases hb'
    | some b =>
      have hquiet : ∀ config, ¬ b.Writes operation id config := fun config hwrites =>
        hquiet index config ⟨b, operation, hb, rfl, hwrites⟩
      refine ⟨a.applyAll (callsTo id (b.perform operation).effects), ?_,
        (Binder.loses_perform hquiet).congr (fun trace => ?_) fun token => ?_⟩
      · simpa [perform, hb] using wears_performAll hwears
      · simp [Sheds, Step.Releases, hb, and_assoc]
      · simp [Restarts, hb, and_assoc]
  | renew index =>
    cases hb : scene.binders[index]? with
    | none =>
      refine ⟨a, by simpa [perform, hb] using hwears, loses_nothing.congr (fun trace => ?_)
        fun token => ?_⟩
      · simp [Sheds, Step.Releases, hb]
      · simp [Restarts]
    | some b =>
      refine ⟨a.applyAll (callsTo id b.drop), ?_,
        Binder.loses_release.congr (fun trace => ?_) fun token => ?_⟩
      · simpa [perform, hb] using wears_performAll hwears
      · simp [Sheds, Step.Releases, hb]
      · simp [Restarts]
  | touch element call =>
    refine ⟨_, wears_touch hwears, ?_⟩
    by_cases he : element = id
    · rw [if_pos he]
      exact (loses_touch hcourteous).congr (by simp [Sheds, Step.Releases]) (by simp [Restarts])
    · rw [if_neg he]
      exact loses_nothing.congr (by simp [Sheds, Step.Releases]) (by simp [Restarts])

/-! Runs. -/

/-- At some of these steps it was taken off. -/
def Shed (scene : Scene) (steps : List Step) (id : ElementId) (trace : Trace) : Prop :=
  ∃ before step after, steps = before ++ step :: after ∧ (scene.run before).Sheds step id trace

/-- At one of these steps the class was started over, and it was not taken off since. -/
def PutOn (scene : Scene) (steps : List Step) (id : ElementId) (token : String) : Prop :=
  ∃ before step after, steps = before ++ step :: after ∧
    (scene.run before).Restarts step id token ∧
    ¬ ((scene.run before).perform step).1.Shed after id (.token token)

/-- None of these steps puts a config on the element. -/
def Quiet (scene : Scene) (steps : List Step) (id : ElementId) : Prop :=
  ∀ before step after, steps = before ++ step :: after →
    ∀ index config, ¬ (scene.run before).Writes step index id config

/-- A step of a run is its first one or one of the others. -/
theorem exists_split_cons (holds : Scene → Step → List Step → Prop) :
    (∃ before last after, step :: steps = before ++ last :: after ∧
      holds (scene.run before) last after) ↔
    holds scene step steps ∨ ∃ before last after, steps = before ++ last :: after ∧
      holds ((scene.perform step).1.run before) last after := by
  constructor
  · rintro ⟨before, last, after, hsplit, hholds⟩
    cases before with
    | nil =>
      obtain ⟨rfl, rfl⟩ := List.cons.inj hsplit
      exact Or.inl hholds
    | cons first before =>
      obtain ⟨rfl, rfl⟩ := List.cons.inj hsplit
      exact Or.inr ⟨before, last, after, rfl, hholds⟩
  · rintro (hholds | ⟨before, last, after, rfl, hholds⟩)
    · exact ⟨[], step, steps, rfl, hholds⟩
    · exact ⟨step :: before, last, after, rfl, hholds⟩

theorem shed_cons {trace : Trace} : scene.Shed (step :: steps) id trace ↔
    scene.Sheds step id trace ∨ (scene.perform step).1.Shed steps id trace :=
  exists_split_cons fun scene step _ => scene.Sheds step id trace

theorem putOn_cons {token : String} : scene.PutOn (step :: steps) id token ↔
    (scene.Restarts step id token ∧ ¬ (scene.perform step).1.Shed steps id (.token token)) ∨
      (scene.perform step).1.PutOn steps id token :=
  exists_split_cons fun scene step steps =>
    scene.Restarts step id token ∧ ¬ (scene.perform step).1.Shed steps id (.token token)

theorem quiet_cons : scene.Quiet (step :: steps) id →
    (∀ index config, ¬ scene.Writes step index id config) ∧
      (scene.perform step).1.Quiet steps id := by
  intro h
  refine ⟨h [] step steps rfl, fun before last after hsplit => ?_⟩
  exact h (step :: before) last after (by rw [hsplit, List.cons_append])

theorem quiet_of_no_config (h : ∀ step ∈ steps, step.config? = none) : scene.Quiet steps id := by
  rintro before step after rfl index config hwrites
  have hnone := h step (by simp)
  rw [config?_of_writes hwrites] at hnone
  cases hnone

/-- As long as no config is put on an element, it loses what the binders track that let go. -/
theorem loses_run (hwears : scene.Wears id a) (hquiet : scene.Quiet steps id)
    (hcourteous : ∀ step ∈ steps, step.Courteous) :
    ∃ a', (scene.run steps).Wears id a' ∧
      Loses a a' (scene.Shed steps id) (scene.PutOn steps id) := by
  induction steps generalizing scene a with
  | nil =>
    refine ⟨a, hwears, loses_nothing.congr (fun trace => ?_) fun token => ?_⟩
    · simp [Shed]
    · simp [PutOn]
  | cons step steps ih =>
    obtain ⟨hstep, hrest⟩ := quiet_cons hquiet
    rw [List.forall_mem_cons] at hcourteous
    obtain ⟨a', hwears', hloses⟩ := loses_perform hwears hstep hcourteous.1
    obtain ⟨a'', hwears'', hloses'⟩ := ih hwears' hrest hcourteous.2
    exact ⟨a'', hwears'', (hloses.trans hloses').congr (fun _ => shed_cons)
      fun _ => putOn_cons.trans or_comm⟩

theorem run_append {later : List Step} : scene.run (steps ++ later) = (scene.run steps).run later :=
  List.foldl_append

/-! The record of the binder. -/

/-- The binder with this number says that it has put the config on the element. -/
def Claims (scene : Scene) (index : Nat) (id : ElementId) (config : Config) : Prop :=
  ∃ b, scene.binders[index]? = some b ∧ b.target = some id ∧
    b.marks.token = Preview.token? config ∧
    b.marks.properties = (Preview.properties config).map (·.1)

theorem claims_of_writes {config : Config} (h : scene.Writes step index id config) :
    (scene.perform step).1.Claims index id config := by
  obtain ⟨b, operation, hb, rfl, ⟨animation, hc⟩, hoperation⟩ := h
  obtain ⟨hlt, -⟩ := List.getElem?_eq_some_iff.mp hb
  refine ⟨(b.perform operation).state, ?_, ?_⟩
  · simp only [perform, hb, List.getElem?_set_self hlt]
  · rcases hoperation with rfl | ⟨rfl, ht⟩
    · change (b.bind config (some id)).state.target = _ ∧
        (b.bind config (some id)).state.marks.token = _ ∧
        (b.bind config (some id)).state.marks.properties = _
      rw [Binder.bind_state, Binder.apply_of_ok rfl hc]
      exact ⟨rfl, rfl, rfl⟩
    · have hreleased : b.release.state.target = some id := ht
      change (b.rebind config).state.target = _ ∧ (b.rebind config).state.marks.token = _ ∧
        (b.rebind config).state.marks.properties = _
      rw [Binder.rebind_state, Binder.apply_of_ok hreleased hc]
      exact ⟨hreleased, rfl, rfl⟩

theorem claims_perform {config : Config} (h : scene.Claims index id config)
    (hkeeps : ¬ step.Releases index) : (scene.perform step).1.Claims index id config := by
  rcases perform_cases scene step with ⟨hscene, -⟩ | ⟨i, b, b', effects, hb, hturns, hscene, -⟩ |
    ⟨element, call, rfl⟩
  · rw [hscene]
    exact h
  · rw [hscene]
    obtain ⟨c, hc, htarget, htoken, hproperties⟩ := h
    by_cases he : i = index
    · subst he
      obtain rfl : b = c := Option.some.inj (hb.symm.trans hc)
      obtain ⟨hlt, -⟩ := List.getElem?_eq_some_iff.mp hb
      cases hturns with
      | operate operation =>
        have hkept : operation.releases = false := by simpa [Step.Releases] using hkeeps
        obtain ⟨hsame, hsameToken, hsameProperties⟩ := b.record_perform hkept
        exact ⟨(b.perform operation).state, List.getElem?_set_self hlt, hsame.trans htarget,
          hsameToken.trans htoken, hsameProperties.trans hproperties⟩
      | renew => exact (hkeeps rfl).elim
    · exact ⟨c, by rwa [List.getElem?_set_ne he], htarget, htoken, hproperties⟩
  · exact h

theorem claims_run {config : Config} (h : scene.Claims index id config)
    (hkeeps : ∀ step ∈ steps, ¬ step.Releases index) :
    (scene.run steps).Claims index id config := by
  induction steps generalizing scene with
  | nil => exact h
  | cons step steps ih =>
    rw [List.forall_mem_cons] at hkeeps
    exact ih (claims_perform h hkeeps.1) hkeeps.2

/-! The last config. -/

/-- What becomes of a config on an element in some steps that put no other one there. -/
structure Outlasts (scene : Scene) (steps : List Step) (index : Nat) (id : ElementId)
    (config : Config) (target : PageElement) : Prop where
  property : ∀ entry ∈ Preview.properties config, ∀ value,
    (entry.1, value) ∈ target.element.style ↔
      value = entry.2 ∧ ¬ scene.Shed steps id (.property entry.1)
  token : ∀ token, Preview.token? config = some token →
    (token ∈ target.element.classes ↔
      scene.PutOn steps id token ∨ ¬ scene.Shed steps id (.token token))
  /-- Whatever of previews is on the element, a binder that has the element knows of it. -/
  tracked : ∀ trace, Preview.names.owns trace = true → target.appearance.Bears trace →
    Tracked (scene.run steps).binders id trace
  /-- The binder that has put the config there goes on to say so, until it lets go itself. -/
  claimed : (∀ step ∈ steps, ¬ step.Releases index) → (scene.run steps).Claims index id config

variable {config : Config} {animation : Animation}

theorem outlasts_of_writes {alone : Page} (h : scene.Writes step index id config)
    (hwears : scene.Wears id a) (hascending : a.style.Ascending)
    (hquiet : (scene.perform step).1.Quiet steps id)
    (hcourteous : ∀ step ∈ steps, step.Courteous)
    (hshared : Page.Shared ((scene.perform step).1.run steps).binders
      ((scene.perform step).1.run steps).page alone) :
    ∃ target, ((scene.perform step).1.run steps).page.elements[id]? = some target ∧
      (scene.perform step).1.Outlasts steps index id config target := by
  have hclaims := claims_of_writes h
  obtain ⟨b, operation, hb, rfl, hwrites⟩ := h
  obtain ⟨hproperties, htoken⟩ := Binder.carries_perform hwrites hascending
  have hwears' : (scene.perform (.operate index operation)).1.Wears id
      (a.applyAll (callsTo id (b.perform operation).effects)) := by
    simpa [perform, hb] using wears_performAll hwears
  obtain ⟨a', ⟨target, ht, hcomplies, rfl⟩, hloses⟩ := loses_run hwears' hquiet hcourteous
  obtain ⟨⟨animation, hc⟩, -⟩ := hwrites
  refine ⟨target, ht, ⟨fun entry hentry value => ?_, fun token htoken' => ?_,
    fun trace ho hbears => (hshared.covered trace ht ho hbears).2, claims_run hclaims⟩⟩
  · rw [← hproperties entry hentry]
    exact hloses.style (Preview.ofStyle_properties hentry) (Preview.ne_playStateName hc hentry)
  · refine (hloses.classes (Preview.ofClass_token htoken')).trans (or_congr_right ?_)
    exact and_iff_right (htoken token htoken')

/-- The config that was put on an element last is there, but for the names that some binder has let
go of since, be it the binder that put them there or another one. -/
theorem outlasts_run (count : Nat) {page : Page} {before after : List Step} {last : Step}
    {target : PageElement} (hpage : page.Untouched) (htarget : page.elements[id]? = some target)
    (hcomplies : target.Complies) (hcourteous : ∀ step ∈ before ++ last :: after, step.Courteous)
    (hlast : (run ⟨List.replicate count {}, page⟩ before).Writes last index id config)
    (hquiet : (run ⟨List.replicate count {}, page⟩ (before ++ [last])).Quiet after id) :
    ∃ target', (run ⟨List.replicate count {}, page⟩ (before ++ last :: after)).page.elements[id]? =
        some target' ∧
      (run ⟨List.replicate count {}, page⟩ (before ++ [last])).Outlasts after index id config
        target' := by
  have hsplit : before ++ last :: after = before ++ [last] ++ after := by simp
  have hwears : Wears ⟨List.replicate count {}, page⟩ id target.appearance :=
    ⟨target, htarget, hcomplies, rfl⟩
  have hstart : Page.Shared (Scene.mk (List.replicate count {}) page).binders
      (Scene.mk (List.replicate count {}) page).page page := Page.shared_new count hpage
  generalize Scene.mk (List.replicate count {}) page = start at *
  have hshared := shared_run hstart hcourteous
  have hearlier := shared_run hstart fun step hstep =>
    hcourteous step (List.mem_append_left _ hstep)
  obtain ⟨a, hwears⟩ := wears_run hwears before
  have hascending : a.style.Ascending := by
    obtain ⟨target, ht, -, rfl⟩ := hwears
    exact hearlier.beside.ascending (Option.map_eq_some_iff.mpr ⟨target, ht, rfl⟩)
  rw [hsplit, run_append, run_append_singleton] at hshared ⊢
  rw [run_append_singleton] at hquiet
  refine outlasts_of_writes hlast hwears hascending hquiet (fun step hstep => ?_) hshared
  exact hcourteous step (List.mem_append_right _ (List.mem_cons_of_mem _ hstep))

/-! What another binder takes off. -/

/-- A binder that has put the same config on an element takes all of it off, whoever put it there
last. -/
theorem emptied_by_other (h : scene.Claims index id config) (hwears : scene.Wears id a)
    (hc : Animation.ofConfig config = .ok animation) :
    ∃ target, (scene.perform (.operate index .unbind)).1.page.elements[id]? = some target ∧
      (∀ entry ∈ Preview.properties config, ∀ value,
        (entry.1, value) ∉ target.element.style) ∧
      ∀ token, Preview.token? config = some token → token ∉ target.element.classes := by
  obtain ⟨b, hb, ht, htoken, hproperties⟩ := h
  have hquiet : ∀ i other, ¬ scene.Writes (.operate index .unbind) i id other := by
    intro i other h
    have hnone : none = some other := config?_of_writes h
    cases hnone
  obtain ⟨a', ⟨target, htarget, -, rfl⟩, hloses⟩ := loses_perform hwears hquiet trivial
  have hreleases : (Step.operate index .unbind).Releases index := ⟨rfl, rfl⟩
  refine ⟨target, htarget, fun entry hentry value hmem => ?_, fun token htoken' hmem => ?_⟩
  · refine ((hloses.style (Preview.ofStyle_properties hentry)
      (Preview.ne_playStateName hc hentry)).mp hmem).2 ⟨index, b, hb, hreleases, ht, List.mem_append_left _ ?_⟩
    rw [hproperties]
    exact List.mem_map_of_mem hentry
  · rcases (hloses.classes (Preview.ofClass_token htoken')).mp hmem with hworn | ⟨-, hkept⟩
    · obtain ⟨i, c, -, hstep, -⟩ := hworn
      cases hstep
    · exact hkept ⟨index, b, hb, hreleases, ht, htoken.trans htoken'⟩

/-- A fade is put on the first element. -/
def fadeOn (index : Nat) : Step := .operate index (.bind .default (some 0))

theorem writes_fadeOn (hb : scene.binders[index]? = some b) :
    scene.Writes (fadeOn index) index 0 .default :=
  ⟨b, _, hb, rfl, Config.animation_default, Or.inl rfl⟩

/-- A fade that is paused and handed back, while another binder has put a fade on the element. -/
def givenBack : List Step :=
  [.operate 0 .pause, .touch 0 (.addClass "wide"), .operate 0 .unbind, .operate 1 .replay]

theorem outlasts_run_givenBack :
    ∃ target, (run ⟨List.replicate 2 {}, twoElements⟩
        ([fadeOn 0] ++ fadeOn 1 :: givenBack)).page.elements[0]? = some target ∧
      (run ⟨List.replicate 2 {}, twoElements⟩ ([fadeOn 0] ++ [fadeOn 1])).Outlasts givenBack 1 0
        .default target := by
  have hcomplies : PageElement.Complies ⟨{ classes := ["card"], style := [("color", "red")] }, .plain⟩ :=
    complies_twoElements _ (by simp [twoElements])
  have hcourteous : ∀ step ∈ [fadeOn 0] ++ fadeOn 1 :: givenBack, step.Courteous := by
    simp [fadeOn, givenBack, Step.Courteous, Names.covers, Names.others, Preview.names]
    decide
  exact outlasts_run 2 untouched_twoElements rfl hcomplies hcourteous (writes_fadeOn rfl)
    (quiet_of_no_config (by simp [givenBack, Step.config?, Binder.Operation.config?]))

/-- Two binders put the same fade on an element. The first one lets go of it, and nothing of the
fade is left, although the second one has put it there last and has not let go. -/
theorem overwritten_lost :
    (run ⟨List.replicate 2 {}, twoElements⟩ [fadeOn 0]).Writes (fadeOn 1) 1 0 .default ∧
      (run ⟨List.replicate 2 {}, twoElements⟩ [fadeOn 0, fadeOn 1, .operate 0 .unbind]).Claims 1 0
        .default ∧
      ∃ target, (run ⟨List.replicate 2 {}, twoElements⟩
          [fadeOn 0, fadeOn 1, .operate 0 .unbind]).page.elements[0]? = some target ∧
        (∀ entry ∈ Preview.properties .default, ∀ value,
          (entry.1, value) ∉ target.element.style) ∧
        "mf-fade" ∉ target.element.classes := by
  obtain ⟨animation, hc⟩ := Config.animation_default
  have hfirst : (run ⟨List.replicate 2 {}, twoElements⟩ [fadeOn 0]).Claims 0 0 .default :=
    claims_of_writes (writes_fadeOn rfl)
  have hboth : (run ⟨List.replicate 2 {}, twoElements⟩ [fadeOn 0, fadeOn 1]).Claims 0 0 .default :=
    claims_perform hfirst (by simp [fadeOn, Step.Releases])
  have hlast : (run ⟨List.replicate 2 {}, twoElements⟩ [fadeOn 0, fadeOn 1]).Claims 1 0 .default :=
    claims_of_writes (writes_fadeOn rfl)
  have hcomplies := complies_twoElements _ (List.mem_cons_self)
  have hstart : Wears ⟨List.replicate 2 {}, twoElements⟩ 0 _ := ⟨_, rfl, hcomplies, rfl⟩
  obtain ⟨a, hwears⟩ := wears_run hstart [fadeOn 0, fadeOn 1]
  obtain ⟨target, htarget, hproperties, htoken⟩ := emptied_by_other hboth hwears hc
  exact ⟨writes_fadeOn rfl, claims_perform hlast (by simp [Step.Releases]), target, htarget,
    hproperties, htoken _ rfl⟩

end Scene
end AnimationKit
