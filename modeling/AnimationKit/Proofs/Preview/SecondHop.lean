import AnimationKit.Proofs.Measure.Halves
import AnimationKit.Proofs.Preview.Parity

/-!
The second hop of a bounce. The sheet of the previews takes half of the height that was written, and
an export writes half of the height. Up to a limit they show the same just if the written height is
an even number of ten-thousandths, and else they are half of a ten-thousandth apart.
-/
namespace AnimationKit

/-- The value of a property at a percentage of the duration. -/
def Css.Block.valueAt? (block : Css.Block) (percentage property : String) : Option Css.Value :=
  (block.steps.find? fun step => step.percentage = percentage).bind fun step =>
    (step.declarations.find? fun d => d.property = property).map (·.value)

namespace Preview

variable {config : Config} {animation : Animation} {value height : Binary64}

/-! The two values. -/

theorem hops_closed : (bounceSteps.map fun hop => Measure.percent hop.1) =
      ["0%", "20%", "40%", "50%", "60%", "80%", "100%"] ∧
    Measure.number (Binary64.ofQuotient 1 2).neg = "-0.5" ∧
    (Binary64.ofQuotient 1 2).equals .zero = false := by
  decide +kernel

/-- Of steps that are made from the lifts of a bounce, the one at 60% is made from a half. -/
theorem valueAt?_hops {block : Css.Block} (lifted : Binary64 → Css.Value)
    (h : block.steps = bounceSteps.map fun hop => step hop.1 "transform" (lifted hop.2)) :
    block.valueAt? "60%" "transform" = some (lifted (.ofQuotient 1 2)) := by
  obtain ⟨hpercents, -⟩ := hops_closed
  simp only [bounceSteps, List.map_cons, List.map_nil, List.cons.injEq, and_true] at hpercents
  obtain ⟨h₀, h₁, h₂, h₃, h₄, -⟩ := hpercents
  rw [Css.Block.valueAt?, h]
  simp [bounceSteps, step, h₀, h₁, h₂, h₃, h₄]

theorem valueAt?_preview (h : config.kind = .family .bounce) :
    (bounceBlock.computed (property config)).valueAt? "60%" "transform" =
      some (.call "translateY" (.product
        (.literal (Measure.pixels (config.distance.getD Defaults.distance).abs)) "-0.5")) := by
  obtain ⟨-, hhalf, hzero⟩ := hops_closed
  refine (valueAt?_hops (fun lift => (Css.Value.call (Motion.translateFunction .y)
    (liftValue lift)).computed (property config)) ?_).trans ?_
  · simp only [bounceBlock, block, Css.Block.computed, List.map_map]
    rfl
  · rw [liftValue, hzero, hhalf, if_neg Bool.false_ne_true, Css.Value.computed, Css.Value.computed,
      computed_distance h (Or.inr rfl)]
    rfl

theorem valueAt?_export {timing : Timing} :
    (Animation.cssBlock ⟨.bounce, timing, .bounce height⟩).valueAt? "60%" "transform" =
      some (.literal
        ("translateY(" ++ Measure.length (height.neg.mul (.ofQuotient 1 2)) ++ ")")) := by
  refine (valueAt?_hops (fun lift => .literal (Motion.translate .y (height.neg.mul lift))) ?_).trans
    rfl
  simp only [Animation.cssBlock, Animation.keyframes, Motion.keyframes, List.map_map]
  rfl

theorem ratOfText?_minus_half : ratOfText? "-0.5" = some (-1 / 2) := by
  have hread : Literal.read? "-0.5".toList = some (.decimal ⟨true, 5, -1⟩) := rfl
  rw [ratOfText?_of_read hread]
  norm_num [Decimal.toRat]

/-! Their lengths. -/

/-- Half of a count of ten-thousandths, and a count that is nearly half of it. -/
theorem half_iff {count half : Nat} (h : Measure.Halved count half) :
    (-(half / 10000 : ℚ) = count / 10000 * (-1 / 2) ↔
      ∃ even : Nat, (count / 10000 : ℚ) = 2 * even / 10000) ∧
    (-(half / 10000 : ℚ) ≠ count / 10000 * (-1 / 2) →
      |-(half / 10000 : ℚ) - count / 10000 * (-1 / 2)| = 1 / 20000) := by
  have hhalf : -(half / 10000 : ℚ) = count / 10000 * (-1 / 2) ↔ count = 2 * half := by
    constructor
    · intro heq
      have hcast : (count : ℚ) = (2 * half : Nat) := by
        push_cast
        linarith
      exact_mod_cast hcast
    · rintro rfl
      push_cast
      ring
  have heven (even : Nat) : (count / 10000 : ℚ) = 2 * even / 10000 ↔ count = 2 * even := by
    constructor
    · intro heq
      have hcast : (count : ℚ) = (2 * even : Nat) := by
        push_cast
        linarith
      exact_mod_cast hcast
    · rintro rfl
      push_cast
      ring
  obtain ⟨hlow, hhigh⟩ := h
  simp only [ne_eq, hhalf, heven]
  refine ⟨⟨fun heq => ⟨half, heq⟩, fun ⟨even, heq⟩ => by omega⟩, fun hne => ?_⟩
  -- One of the two is odd, so that it is one off.
  have hcases : count = 2 * half + 1 ∨ count + 1 = 2 * half := by omega
  rcases hcases with heq | heq
  · have hcast : (count : ℚ) = 2 * half + 1 := by exact_mod_cast heq
    rw [hcast, abs_of_pos] <;> linarith
  · have hcast : (count : ℚ) + 1 = 2 * half := by exact_mod_cast heq
    rw [abs_of_neg] <;> linarith

/-- What is written for a height, and for half of it downwards. -/
theorem half_written_iff (h : height.abs.le Measure.decimalsLimit = true) :
    ((Measure.decimal (height.abs.neg.mul (.ofQuotient 1 2))).toRat =
        (Measure.decimal height.abs).toRat * (-1 / 2) ↔
      ∃ count : Nat, (Measure.decimal height.abs).toRat = 2 * count / 10000) ∧
    ((Measure.decimal (height.abs.neg.mul (.ofQuotient 1 2))).toRat ≠
        (Measure.decimal height.abs).toRat * (-1 / 2) →
      |(Measure.decimal (height.abs.neg.mul (.ofQuotient 1 2))).toRat -
        (Measure.decimal height.abs).toRat * (-1 / 2)| = 1 / 20000) := by
  cases height with
  | nan =>
    rw [Binary64.abs_nan, Binary64.le] at h
    cases h
  | signed negative rank hrank =>
    obtain ⟨count, half, hhalved, hwhole, hhalf⟩ :=
      Measure.decimal_halves (Measure.abs_le_decimalsLimit.mp h)
    rw [Binary64.abs_signed, Binary64.neg_mul, Measure.toRat_decimal_neg, hwhole, hhalf]
    exact half_iff hhalved

/-- Where a bounce hops for the second time, the preview goes up by half of the height as it is
written, and the export by what is written for half of the height, as the texts of the sheet and of
the export say. Up to a hundred billion pixels they agree just if the written height is an even
number of ten-thousandths. -/
theorem second_hop (h : Animation.ofConfig config = .ok animation)
    (hbounce : animation.family = .bounce) :
    ∃ block css written argument text previewed exported, token? config = some block.name ∧
      Css.Declares sheetText block ∧
      config.cssSource = .ok css ∧ Css.Block.read? css.text = some written ∧
      (block.computed (property config)).valueAt? "60%" "transform" =
        some (.call "translateY" argument) ∧
      written.valueAt? "60%" "transform" = some (.literal ("translateY(" ++ text ++ ")")) ∧
      argument.pixels? = some previewed ∧ Css.pixelsOfText? text = some exported ∧
      ∃ height, ratOfText? (Measure.number (config.distance.getD Defaults.distance).abs) =
          some height ∧
        previewed = height * (-1 / 2) ∧
        ((config.distance.getD Defaults.distance).abs.le Measure.decimalsLimit = true →
          (exported = previewed ↔ ∃ count : Nat, height = 2 * count / 10000) ∧
          (exported ≠ previewed → |exported - previewed| = 1 / 20000)) := by
  obtain ⟨family, hkind, hvalid, rfl⟩ := Animation.ofConfig_ok h
  obtain rfl : family = .bounce := hbounce
  obtain ⟨css, hcss, hread⟩ := read?_cssSource h
  have htoken : token? config = some (blockOf config .bounce).name := by
    rw [name_blockOf]
    simp [token?, hkind]
  exact ⟨_, css, _, _, _, _, _, htoken, declares_blockOf config .bounce, hcss, hread,
    valueAt?_preview hkind, valueAt?_export,
    Css.pixels?_product (Css.pixelsOfText?_pixels _) ratOfText?_minus_half,
    Css.pixelsOfText?_length _, _, Measure.ratOfText?_number _, rfl, half_written_iff⟩

/-- A bounce to this height. -/
def bounceTo (height : Binary64) : Config :=
  { kind := .family .bounce, duration := .ofNat 1, distance := some height }

/-- Twelve pixels and an odd number of ten-thousandths. -/
def oddHeight : Binary64 := .ofQuotient 123457 10000

theorem bounces_closed :
    (Animation.ofConfig (bounceTo (.ofNat 40)) =
        .ok ⟨.bounce, ⟨.ofNat 1, .zero, .default⟩, .bounce (.ofNat 40)⟩ ∧
      Measure.number (.ofNat 40) = "40" ∧ (Binary64.ofNat 40).le Measure.decimalsLimit = true) ∧
    Animation.ofConfig (bounceTo oddHeight) =
      .ok ⟨.bounce, ⟨.ofNat 1, .zero, .default⟩, .bounce oddHeight⟩ ∧
    Measure.number oddHeight = "12.3457" ∧
    Measure.number (oddHeight.neg.mul (.ofQuotient 1 2)) = "-6.1729" := by
  decide +kernel

theorem second_hop_forty :
    ∃ animation, Animation.ofConfig (bounceTo (.ofNat 40)) = .ok animation ∧
      animation.family = .bounce ∧
      ∃ block css written argument text pixels,
        token? (bounceTo (.ofNat 40)) = some block.name ∧ Css.Declares sheetText block ∧
        (bounceTo (.ofNat 40)).cssSource = .ok css ∧ Css.Block.read? css.text = some written ∧
        (block.computed (property (bounceTo (.ofNat 40)))).valueAt? "60%" "transform" =
          some (.call "translateY" argument) ∧
        written.valueAt? "60%" "transform" = some (.literal ("translateY(" ++ text ++ ")")) ∧
        argument.pixels? = some pixels ∧ Css.pixelsOfText? text = some pixels := by
  obtain ⟨⟨hvalid, hnumber, hlimit⟩, -⟩ := bounces_closed
  obtain ⟨block, css, written, argument, text, previewed, exported, htoken, hblock, hcss, hwritten,
    hpreview, hexport, hpreviewed, hexported, height, hheight, -, hsame⟩ := second_hop hvalid rfl
  have hforty : ratOfText? "40" = some 40 := by
    have hread : Literal.read? "40".toList = some (.decimal ⟨false, 40, 0⟩) := rfl
    rw [ratOfText?_of_read hread]
    norm_num [Decimal.toRat]
  have htext : Measure.number ((bounceTo (.ofNat 40)).distance.getD Defaults.distance).abs =
      "40" := hnumber
  rw [htext, hforty, Option.some.injEq] at hheight
  obtain rfl : exported = previewed :=
    (hsame hlimit).1.mpr ⟨200000, by rw [← hheight]; norm_num⟩
  exact ⟨_, hvalid, rfl, block, css, written, argument, text, exported, htoken, hblock, hcss,
    hwritten, hpreview, hexport, hpreviewed, hexported⟩

theorem toRat_of_number {text : String} {d : Decimal} (hnumber : Measure.number value = text)
    (hread : Literal.read? text.toList = some (.decimal d)) :
    (Measure.decimal value).toRat = d.toRat := by
  have hwritten := Measure.ratOfText?_number value
  rw [hnumber, ratOfText?_of_read hread] at hwritten
  exact (Option.some.inj hwritten).symm

/-- The preview hops to 6.17285 pixels and the export to 6.1729. -/
theorem second_hop_apart :
    ∃ animation block css written argument text,
      Animation.ofConfig (bounceTo oddHeight) = .ok animation ∧
      token? (bounceTo oddHeight) = some block.name ∧ Css.Declares sheetText block ∧
      (bounceTo oddHeight).cssSource = .ok css ∧ Css.Block.read? css.text = some written ∧
      (block.computed (property (bounceTo oddHeight))).valueAt? "60%" "transform" =
        some (.call "translateY" argument) ∧
      written.valueAt? "60%" "transform" = some (.literal ("translateY(" ++ text ++ ")")) ∧
      argument.pixels? = some (-617285 / 100000) ∧
      Css.pixelsOfText? text = some (-61729 / 10000) := by
  obtain ⟨-, hvalid, hheight, hhalf⟩ := bounces_closed
  obtain ⟨css, hcss, hread⟩ := read?_cssSource hvalid
  refine ⟨_, bounceBlock, css, _, _, _, hvalid, rfl, declares_blockOf (bounceTo oddHeight) .bounce,
    hcss, hread, valueAt?_preview rfl, valueAt?_export, ?_, ?_⟩
  · have hwritten := toRat_of_number (d := ⟨false, 123457, -4⟩) hheight rfl
    have hproduct : (Css.Value.product (.literal (Measure.pixels oddHeight)) "-0.5").pixels? =
        some ((Measure.decimal oddHeight).toRat * (-1 / 2)) :=
      Css.pixels?_product (Css.pixelsOfText?_pixels _) ratOfText?_minus_half
    rw [hwritten] at hproduct
    refine hproduct.trans ?_
    norm_num [Decimal.toRat]
  · rw [Css.pixelsOfText?_length, toRat_of_number (d := ⟨true, 61729, -4⟩) hhalf rfl]
    norm_num [Decimal.toRat]

end Preview
end AnimationKit
