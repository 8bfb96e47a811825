import AnimationKit.Export.Format

/-!
What a host sets for exports and copies.
-/
namespace AnimationKit

structure Settings where
  /-- The export format at the start. -/
  defaultFormat : ExportFormat := .react
  /-- For how many milliseconds the outcome of a copy is shown. -/
  feedbackTime : Binary64 := .ofNat 2000
  /-- Names exported components, if it is the name of a component. -/
  componentName : Option String := none
deriving DecidableEq

end AnimationKit
