import AnimationKit.Config.Basic

/-!
The export formats and the names that belong to them.
-/
namespace AnimationKit

/-- What an animation is exported as: a React component, or a style sheet. -/
inductive ExportFormat where
  | react
  | css
deriving DecidableEq

/-- The component name for a kind, such as `FadeAnimation`. -/
def Kind.componentName : Kind → String
  | .family f => f.name.capitalize ++ "Animation"
  | .unsupported _ => "Animation"

namespace ExportFormat

def all : List ExportFormat := [react, css]

def name : ExportFormat → String
  | react => "react"
  | css => "css"

/-- The suggested name of a file that holds the export. -/
def fileName (kind : Kind) : ExportFormat → String
  | react => kind.componentName ++ ".jsx"
  | css => (match kind with
    | .family f => f.name
    | .unsupported _ => "animation") ++ ".css"

/-- Reads a name, blanks around it and the case of its letters aside. -/
def ofText (text : String) : Except ConfigError ExportFormat :=
  let lower := (Text.trim text.toList).map Char.toLower
  match all.find? fun format => format.name.toList == lower with
  | some format => .ok format
  | none => .error (.unknownFormat text)

end ExportFormat
end AnimationKit
