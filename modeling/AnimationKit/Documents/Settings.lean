import AnimationKit.Documents.Config
import AnimationKit.Settings

/-!
Settings as JSON documents.
-/
namespace AnimationKit

open Json

def ExportFormat.named : List (String × ExportFormat) := [("react", .react), ("css", .css)]

namespace Settings

def shape : RecordShape Settings :=
  ⟨.record "Settings",
    [⟨"default_backend", false, do
        let format ← Reader.name ExportFormat.named
        pure fun settings => { settings with defaultFormat := format }⟩,
     ⟨"copy_feedback_ms", false, do
        let x ← Reader.double
        pure fun settings => { settings with feedbackTime := x }⟩,
     ⟨"component_name", false, do
        let name ← Reader.optional Reader.text
        pure fun settings => { settings with componentName := name }⟩]⟩

/-- Reads settings; what is not given stays at its default. -/
def ofJson (text : String) : Except ConfigError Settings := readDocument (shape.read {}) text

def toJson (settings : Settings) : Value :=
  .object
    [("default_backend", .text settings.defaultFormat.name),
     ("copy_feedback_ms", .double settings.feedbackTime),
     ("component_name", (settings.componentName.map Value.text).getD .null)]

end Settings
end AnimationKit
