import AnimationKit.Proofs.Page.Beside
import AnimationKit.Proofs.Preview.Showing

/-! Runs of a scene with one binder: what its fields and its element say after any steps. -/
namespace AnimationKit

namespace Scene

/-- A scene after some steps. -/
def run (scene : Scene) (steps : List Step) : Scene :=
  steps.foldl (fun scene step => (scene.perform step).1) scene

/-- The page has all names but those of previews. -/
def Step.Courteous : Step → Prop
  | .operate _ _ | .renew _ => True
  | .touch _ call => Preview.names.others.covers call = true

/-- An operation of the only binder, or a call of the page. -/
def Step.IsSolo : Step → Prop
  | .operate binder _ => binder = 0
  | .renew _ => False
  | .touch _ _ => True

def Step.config? : Step → Option Config
  | .operate _ operation => operation.config?
  | .renew _ | .touch _ _ => none

/-- The config that some steps applied last. -/
def lastConfig (steps : List Step) : Option Config := (steps.filterMap Step.config?).getLast?

theorem run_append_singleton {scene : Scene} {steps : List Step} {step : Step} :
    scene.run (steps ++ [step]) = ((scene.run steps).perform step).1 := by
  simp [run, List.foldl_append]

theorem lastConfig_append_singleton {steps : List Step} {step : Step} :
    lastConfig (steps ++ [step]) = step.config?.or (lastConfig steps) := by
  cases h : step.config? <;> simp [lastConfig, h]

end Scene

namespace Page

def Complies (page : Page) : Prop := ∀ target ∈ page.elements, target.Complies

/-- Elements that carry nothing of any preview. -/
def Untouched (page : Page) : Prop :=
  ∀ target ∈ page.elements, target.element.style.Ascending ∧
    target.element.classes.filter Preview.names.ofClass = [] ∧
    target.element.style.keep Preview.names.ofStyle = []

theorem within_of_untouched {page : Page} {target : PageElement} (h : page.Untouched)
    (ht : target ∈ page.elements) :
    target.appearance.style.Ascending ∧ target.appearance.within Preview.names = .empty := by
  obtain ⟨hascending, hclasses, hstyle⟩ := h target ht
  refine ⟨hascending, ?_⟩
  rw [Appearance.within, Appearance.empty, Appearance.mk.injEq]
  exact ⟨hclasses, hstyle⟩

theorem beside_of_untouched {page : Page} (h : page.Untouched) :
    Beside Preview.names page page := by
  apply beside_self
  intro id a ha
  obtain ⟨target, ht, rfl⟩ := appearance?_eq_some ha
  exact within_of_untouched h (List.mem_of_getElem? ht)

theorem shows_of_untouched {page : Page} (hcomplies : page.Complies) (h : page.Untouched) :
    page.Shows Preview.names fun _ => .empty := by
  intro id target ht
  have hm := List.mem_of_getElem? ht
  exact ⟨hcomplies target hm, within_of_untouched h hm⟩

end Page

namespace Binder

variable {b : Binder} {config : Config} {applied : Option Config} {page : Page}

/-- The fields of a binder, its element and its answers say the same of the config applied last. -/
structure Represents (b : Binder) (applied : Option Config) (page : Page) : Prop where
  unbound_iff : b.state = .unbound ↔ b.target = none
  bound_iff : b.state = .bound ↔ b.target ≠ none ∧
    ∃ config cause, applied = some config ∧ Animation.ofConfig config = .error cause
  animating_iff : b.state = .running ∨ b.state = .paused ↔ b.target ≠ none ∧
    ∃ config animation, applied = some config ∧ Animation.ofConfig config = .ok animation
  /-- The play state is `paused` while the animation is held, else `running` or absent. -/
  shows : ∀ {id config target}, b.state = .running ∨ b.state = .paused → b.target = some id →
    applied = some config → page.elements[id]? = some target →
    ∃ token play, Preview.token? config = some token ∧ b.marks.token = some token ∧
      target.element.classes.filter Preview.names.ofClass = [token] ∧
      (target.element.style.keep Preview.names.ofStyle).Perm
        (Preview.properties config ++ play.toList.map fun value => (playStateName, value)) ∧
      (play = some "paused" ↔ b.state = .paused) ∧
      (b.state = .running → play = none ∨ play = some "running")
  clear : ∀ {id target}, b.state = .bound ∨ b.target ≠ some id →
    page.elements[id]? = some target →
    target.element.classes.filter Preview.names.ofClass = [] ∧
      target.element.style.keep Preview.names.ofStyle = []
  replay_iff : b.replay.result = true ↔ b.state = .running ∨ b.state = .paused
  pause_iff : b.pause.result = true ↔ b.state = .running
  resume_iff : b.resume.result = true ↔ b.state = .paused
  refused : ∀ {operation}, (b.perform operation).result = .success false →
    (b.perform operation).state = b ∧ (b.perform operation).effects = []

theorem target_iff (h : b.Situation applied) :
    (b.state = .unbound ↔ b.target = none) ∧
      (b.state = .bound ↔ b.target ≠ none ∧
        ∃ config cause, applied = some config ∧ Animation.ofConfig config = .error cause) ∧
      (b.state = .running ∨ b.state = .paused ↔ b.target ≠ none ∧
        ∃ config animation, applied = some config ∧ Animation.ofConfig config = .ok animation) := by
  cases h with
  | unbound ht hs hm => simp [ht, hs]
  | bound ht ha hc hs hm => simp [ht, hs, ha, hc]
  | animating ht ha hc hs htoken hproperties =>
    rcases hs with hs | ⟨hs, -⟩ <;> simp [ht, hs, ha, hc]

theorem playState_iff (h : b.Situation applied) (hs : b.state = .running ∨ b.state = .paused) :
    (b.playState? = some "paused" ↔ b.state = .paused) ∧
      (b.state = .running → b.playState? = none ∨ b.playState? = some "running") := by
  cases h with
  | unbound ht hs' hm => simp [hs'] at hs
  | bound ht ha hc hs' hm => simp [hs'] at hs
  | animating ht ha hc hs' htoken hproperties =>
    rcases hs' with hs' | ⟨hs', hp⟩
    · cases hp : b.marks.playState <;> simp [playState?, hp, hs']
    · simp [playState?, hp, hs']

theorem shownStyle_perm {animation : Animation} (hc : Animation.ofConfig config = .ok animation) :
    (b.shownStyle config).Perm
      (Preview.properties config ++
        b.playState?.toList.map fun value => (playStateName, value)) := by
  obtain ⟨family, hk⟩ := Animation.kind_of_ok hc
  apply InlineStyle.ofList_perm
  have hnodup := Preview.nodup_properties hk
  cases b.playState? with
  | none => simpa using (List.nodup_append.mp hnodup).1
  | some value => simpa using hnodup

theorem replay_result (h : b.Situation applied) :
    b.replay.result = true ↔ b.state = .running ∨ b.state = .paused := by
  cases h with
  | unbound ht hs hm => simp [replay_of_none (Or.inl ht), hs]
  | bound ht ha hc hs hm => simp [replay_of_none (Or.inr (congrArg Marks.token hm)), hs]
  | animating ht ha hc hs htoken hproperties =>
    obtain ⟨token, hk⟩ := Preview.token_of_ok hc
    simp [replay_of_some ht (htoken.trans hk), hs.imp_right And.left]

theorem hold_result {before after : PreviewState} {value : String} {note : Note}
    (hbefore : before = .running ∨ before = .paused) (h : b.Situation applied) :
    (b.hold before after value note).result = true ↔ b.state = before := by
  by_cases hstate : b.state = before
  · have hne := not_unbound_or_bound hbefore hstate
    cases h with
    | unbound ht hs hm => exact (hne.1 hs).elim
    | bound ht => simp [hold_of_state hstate ht, hstate]
    | animating ht => simp [hold_of_state hstate ht, hstate]
  · simp [hold_of_not (Or.inl hstate), hstate]

theorem token_of_situation {animation : Animation} (h : b.Situation (some config))
    (hc : Animation.ofConfig config = .ok animation) (ht : b.target ≠ none) :
    b.marks.token = Preview.token? config := by
  cases h with
  | unbound ht' => exact (ht ht').elim
  | bound ht' ha hc' =>
    rw [← Option.some.inj ha, hc] at hc'
    exact Except.noConfusion rfl rfl (heq_of_eq hc')
  | animating ht' ha hc' hs htoken => rw [htoken, Option.some.inj ha]

theorem share_empty_of_situation {id : ElementId} (h : b.Situation applied)
    (hs : b.state = .bound ∨ b.target ≠ some id) : b.share applied id = .empty := by
  by_cases ht : b.target = some id
  · have hbound := hs.resolve_right (not_not_intro ht)
    obtain ⟨-, config, cause, ha, hc⟩ := (target_iff h).2.1.mp hbound
    rw [ha, share_of_target ht, shown_of_error hc]
  · exact share_of_target_ne ht

theorem represents_of_shows (h : b.Situation applied)
    (hpage : page.Shows Preview.names (b.share applied)) : b.Represents applied page := by
  obtain ⟨hunbound, hbound, hanimating⟩ := target_iff h
  refine ⟨hunbound, hbound, hanimating, ?_, ?_, replay_result h, hold_result (Or.inl rfl) h,
    hold_result (Or.inr rfl) h, perform_of_refused⟩
  · intro id config target hs ht ha he
    obtain ⟨-, config', animation, ha', hc⟩ := hanimating.mp hs
    obtain rfl : config = config' := Option.some.inj (ha.symm.trans ha')
    obtain ⟨token, hk⟩ := Preview.token_of_ok hc
    obtain ⟨hpaused, hrunning⟩ := playState_iff h hs
    have hshare := (hpage id target he).2.2
    rw [ha, share_of_target ht, shown_of_ok hc, hk] at hshare
    obtain ⟨hclasses, hstyle⟩ := Appearance.mk.inj hshare
    refine ⟨token, b.playState?, hk, ?_, hclasses, ?_, hpaused, hrunning⟩
    · rw [token_of_situation (ha ▸ h) hc (by simp [ht]), hk]
    · exact hstyle ▸ shownStyle_perm hc
  · intro id target hs he
    have hshare := (hpage id target he).2.2
    rw [share_empty_of_situation h hs] at hshare
    exact Appearance.mk.inj hshare

end Binder

namespace Scene

/-- What holds of a scene whose only binder was given a config last. -/
def Solo (scene : Scene) (applied : Option Config) : Prop :=
  ∃ b, scene.binders = [b] ∧ b.Situation applied ∧ scene.page.Shows Preview.names (b.share applied)

theorem solo_perform {scene : Scene} {applied : Option Config} {step : Step}
    (h : scene.Solo applied) (hsolo : step.IsSolo) (hcourteous : step.Courteous) :
    (scene.perform step).1.Solo (step.config?.or applied) := by
  obtain ⟨b, hb, hsituation, hpage⟩ := h
  cases step with
  | operate binder operation =>
    obtain rfl : binder = 0 := hsolo
    refine ⟨(b.perform operation).state, ?_, b.situation_perform operation hsituation, ?_⟩
    · simp [perform, hb]
    · simpa [perform, hb, Step.config?] using
        b.shows_perform operation hsituation hpage fun _ => rfl
  | renew binder => exact hsolo.elim
  | touch element call => exact ⟨b, hb, hsituation, Page.shows_touch hpage hcourteous⟩

theorem solo_run {page : Page} {steps : List Step} (hcomplies : page.Complies)
    (hpage : page.Untouched) (hsolo : ∀ step ∈ steps, step.IsSolo)
    (hcourteous : ∀ step ∈ steps, step.Courteous) :
    (run ⟨[{}], page⟩ steps).Solo (lastConfig steps) := by
  induction steps using List.reverseRecOn with
  | nil =>
    refine ⟨{}, rfl, Binder.situation_new, ?_⟩
    exact Page.shows_of_untouched hcomplies hpage
  | append_singleton steps step ih =>
    have ih := ih (fun step hs => hsolo step (List.mem_append_left _ hs))
      fun step hs => hcourteous step (List.mem_append_left _ hs)
    rw [run_append_singleton, lastConfig_append_singleton]
    exact solo_perform ih (hsolo step (by simp)) (hcourteous step (by simp))

/-- After any operations, among calls of the page that keep off the names of previews, a binder
represents the config that it applied last. -/
theorem represents_run {page : Page} {steps : List Step} (hcomplies : page.Complies)
    (hpage : page.Untouched) (hsolo : ∀ step ∈ steps, step.IsSolo)
    (hcourteous : ∀ step ∈ steps, step.Courteous) :
    ∃ b, (run ⟨[{}], page⟩ steps).binders = [b] ∧
      b.Represents (lastConfig steps) (run ⟨[{}], page⟩ steps).page := by
  obtain ⟨b, hb, hsituation, hshows⟩ := solo_run hcomplies hpage hsolo hcourteous
  exact ⟨b, hb, Binder.represents_of_shows hsituation hshows⟩

/-- Two elements of a page; the first one has a class and a style of its own. -/
def twoElements : Page :=
  { elements := [⟨{ classes := ["card"], style := [("color", "red")] }, .plain⟩, ⟨{}, .plain⟩] }

/-- A slide that is paused, and then shown on another element while the page goes on. -/
def pausedAndMoved : List Step :=
  let slide : Config :=
    { kind := .family .slide, duration := .ofNat 1, distance := some (.ofInt (-20)) }
  [.operate 0 (.bind slide (some 0)), .operate 0 .pause, .touch 0 (.addClass "wide"),
    .operate 0 (.bind slide (some 1)), .touch 1 (.setStyle "color" "blue"), .operate 0 .replay,
    .operate 0 .pause]

theorem complies_twoElements : twoElements.Complies := by
  simp [twoElements, Page.Complies, PageElement.Complies]

theorem untouched_twoElements : twoElements.Untouched := by
  simp [twoElements, Page.Untouched, InlineStyle.Ascending, InlineStyle.keep, Preview.names,
    playStateName]

theorem represents_run_pausedAndMoved :
    twoElements.Complies ∧ twoElements.Untouched ∧ (∀ step ∈ pausedAndMoved, step.IsSolo) ∧
      (∀ step ∈ pausedAndMoved, step.Courteous) ∧
      ∃ b, (run ⟨[{}], twoElements⟩ pausedAndMoved).binders = [b] ∧
        b.Represents (lastConfig pausedAndMoved)
          (run ⟨[{}], twoElements⟩ pausedAndMoved).page := by
  have hsolo : ∀ step ∈ pausedAndMoved, step.IsSolo := by
    simp [pausedAndMoved, Step.IsSolo]
  have hcourteous : ∀ step ∈ pausedAndMoved, step.Courteous := by
    simp [pausedAndMoved, Step.Courteous, Names.covers, Names.others, Preview.names, playStateName]
    decide
  exact ⟨complies_twoElements, untouched_twoElements, hsolo, hcourteous,
    represents_run complies_twoElements untouched_twoElements hsolo hcourteous⟩

end Scene
end AnimationKit
