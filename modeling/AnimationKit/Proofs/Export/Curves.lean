import AnimationKit.Proofs.Config.Constraints
import AnimationKit.Proofs.Documents.Saving
import AnimationKit.Proofs.Export.Lossless
import AnimationKit.Proofs.Json.Rereading

/-!
The curve of an animation as it is written. No check looks at the control points of a config, so
they are written as they are, rounded. The text is that of a curve exactly if both ends of the curve
are close enough to the unit interval on their first axis.
-/
namespace AnimationKit

open Json Preview

variable {config : Config} {animation : Animation} {cause : ConfigError}

/-! Saved configs whose curve no text has. -/

namespace Easing

theorem refuses_read {text : String} {behind : List Char} (h : ofText text = .error cause) :
    Refuses read ((quote text).toList ++ behind) := by
  apply Refuses.of_reads (Reader.reads_text text)
  rw [h]
  exact .failUnplaced

end Easing

namespace Config

/-- What is read up to the curve is read to no end. -/
theorem ofJson_toJson_of_error (h : Easing.ofText config.easing.text = .error cause) :
    ∃ reason, ofJson config.toJson.render = .error (.malformed reason) := by
  have hcurve : shape.Rejects ("easing", .text config.easing.text) :=
    ⟨_, rfl, fun _ _ => .bind (Easing.refuses_read h)⟩
  have hfront : ∀ member ∈ [("type", Value.text config.kind.name),
      ("duration", .double config.duration), ("delay", .double config.delay)],
      (∃ change, shape.Stores member change) ∨ shape.Rejects member := by
    simp only [List.forall_mem_cons]
    exact ⟨.inl ⟨_, stores_kind _⟩, RecordShape.settles_double ⟨_, _, rfl⟩,
      RecordShape.settles_double ⟨_, _, rfl⟩,
      List.forall_mem_nil _⟩
  obtain ⟨rest, hmembers⟩ : ∃ rest, config.members =
      [("type", .text config.kind.name), ("duration", .double config.duration),
        ("delay", .double config.delay)] ++ ("easing", .text config.easing.text) :: rest := ⟨_, rfl⟩
  apply readDocument_of_refuses
  rw [toJson_eq, hmembers, ← List.append_nil (Value.render _).toList]
  exact RecordShape.refuses_record_of_settled default hfront hcurve []

end Config

/-! Curves in exports and previews. -/

/-- Every export and every preview of a config has this text for its curve. -/
structure ShowsCurve (config : Config) (text : String) : Prop where
  exports : ∀ settings, ∃ css react exported parameters,
    config.source .css settings = .ok css ∧ config.source .react settings = .ok react ∧
    Css.decode? css.text = some exported ∧
    ReactComponent.decode? react.text = some (exported, parameters) ∧ exported.easing = text
  preview : ∀ family : Family,
    property config (propertyName family.name "easing") = some text

theorem showsCurve (h : Animation.ofConfig config = .ok animation) :
    ShowsCurve config config.easing.text := by
  obtain ⟨family, hkind, -, rfl⟩ := Animation.ofConfig_ok h
  constructor
  · intro settings
    obtain ⟨hcss, hreact⟩ := sources_of_ok h settings
    exact ⟨_, _, _, _, hcss, hreact, decode?_cssText _, decode?_reactSource _ _, rfl⟩
  · intro other
    exact property_of_timing hkind (by simp [timingProperties])

/-- What becomes of the curve of a config that has an animation. It is shown by its text, which is
the text of a curve exactly if the control points are close to the unit interval; those of a text
always are. A saved config is then read with the curve that is written, provided that the rest of it
can be saved, and it is the same but for that if its numbers are read back from their own texts.
Else the saved document is no config at all. -/
structure CurveWritten (config : Config) : Prop where
  shown : ShowsCurve config config.easing.text
  read : (∃ easing, Easing.ofText config.easing.text = .ok easing) ↔ config.easing.NearUnit
  given : ∀ text, Easing.ofText text = .ok config.easing → config.easing.NearUnit
  saved : config.easing.NearUnit → ∀ other, { config with easing := other }.Stored →
    ∃ reloaded, Config.ofJson config.toJson.render = .ok reloaded ∧
      reloaded.easing = config.easing.reread
  kept : config.easing.NearUnit → (∀ x ∈ config.numbers, Rereads x) →
    Config.ofJson config.toJson.render = .ok { config with easing := config.easing.reread }
  lost : ¬ config.easing.NearUnit →
    ∃ reason, Config.ofJson config.toJson.render = .error (.malformed reason)

theorem curve_written (h : Animation.ofConfig config = .ok animation) : CurveWritten config where
  shown := showsCurve h
  read := by
    constructor
    · rintro ⟨easing, heasing⟩
      by_contra hfar
      rw [Easing.ofText_of_not_nearUnit hfar] at heasing
      cases heasing
    · intro hnear
      exact ⟨_, Easing.ofText_reread hnear⟩
  given _ hread := Easing.nearUnit_of_valid (Easing.valid_of_ofText hread)
  saved hnear _ hstored :=
    ⟨_, Config.ofJson_toJson hstored.kind (Config.rereads_numbers hstored)
      (Easing.ofText_reread hnear), rfl⟩
  kept hnear hnumbers := by
    obtain ⟨family, hkind, -⟩ := Animation.ofConfig_ok h
    have hname : Kind.ofName config.kind.name = config.kind := by
      rw [hkind]
      cases family <;> rfl
    exact Config.ofJson_toJson hname hnumbers (Easing.ofText_reread hnear)
  lost hfar := Config.ofJson_toJson_of_error (Easing.ofText_of_not_nearUnit hfar)

/-- A fade with a curve that no text has: it comes from less than half of a decimal beyond one, from
nowhere, and from infinitely far down. -/
def strayFade : Config :=
  { Config.default with
    easing := .cubicBezier (.ofQuotient 100004 100000) (.infinity true) .nan (.ofQuotient 5 2) }

/-- A fade with a control point half of the unit interval beyond it. -/
def overshootingFade : Config :=
  { Config.default with
    easing := .cubicBezier (.ofQuotient 3 2) .zero (.ofQuotient 1 5) (.ofNat 1) }

theorem fades_closed :
    (Animation.ofConfig strayFade =
        .ok ⟨.fade, ⟨strayFade.duration, .zero, strayFade.easing⟩, .fade Defaults.opacity⟩ ∧
      strayFade.easing.text = "cubic-bezier(1, 0, 0, 2.5)" ∧
      Easing.ofText "cubic-bezier(1, 0, 0, 2.5)" =
        .ok (.cubicBezier (.ofNat 1) .zero .zero (.ofQuotient 5 2))) ∧
    Animation.ofConfig overshootingFade =
      .ok ⟨.fade, ⟨overshootingFade.duration, .zero, overshootingFade.easing⟩,
        .fade Defaults.opacity⟩ ∧
    overshootingFade.easing.text = "cubic-bezier(1.5, 0, 0.2, 1)" ∧
    Easing.ofText "cubic-bezier(1.5, 0, 0.2, 1)" =
      .error (.invalidEasing "cubic-bezier(1.5, 0, 0.2, 1)") := by
  decide +kernel

/-- The first fade is shown with a curve and saved with that, the second one with none. -/
theorem curve_written_strayFade :
    (∃ animation, Animation.ofConfig strayFade = .ok animation ∧ strayFade.easing.NearUnit ∧
      ShowsCurve strayFade "cubic-bezier(1, 0, 0, 2.5)" ∧
      ∃ reloaded, Config.ofJson strayFade.toJson.render = .ok reloaded ∧
        reloaded.easing = strayFade.easing.reread) ∧
    ∃ animation, Animation.ofConfig overshootingFade = .ok animation ∧
      ¬ overshootingFade.easing.NearUnit := by
  obtain ⟨⟨hstray, htext, hread⟩, hovershooting, htext', hfails⟩ := fades_closed
  have hwritten := curve_written hstray
  have hnear : strayFade.easing.NearUnit := hwritten.read.mp ⟨_, htext ▸ hread⟩
  obtain ⟨reloaded, hreloaded, hcurve⟩ :=
    hwritten.saved hnear .default Config.stored_default
  refine ⟨⟨_, hstray, hnear, htext ▸ hwritten.shown, reloaded, hreloaded, hcurve⟩, _,
    hovershooting, fun hnear => ?_⟩
  obtain ⟨easing, heasing⟩ := (curve_written hovershooting).read.mpr hnear
  rw [htext', hfails] at heasing
  cases heasing

/-- The second fade is exported with a text that is no curve, and its saved document is not read. -/
theorem curve_lost_overshootingFade :
    (∃ animation, Animation.ofConfig overshootingFade = .ok animation) ∧
      ShowsCurve overshootingFade "cubic-bezier(1.5, 0, 0.2, 1)" ∧
      Easing.ofText "cubic-bezier(1.5, 0, 0.2, 1)" =
        .error (.invalidEasing "cubic-bezier(1.5, 0, 0.2, 1)") ∧
      ∃ reason, Config.ofJson overshootingFade.toJson.render = .error (.malformed reason) := by
  obtain ⟨-, hovershooting, htext, hfails⟩ := fades_closed
  exact ⟨⟨_, hovershooting⟩, htext ▸ showsCurve hovershooting, hfails,
    Config.ofJson_toJson_of_error (htext ▸ hfails)⟩

end AnimationKit
