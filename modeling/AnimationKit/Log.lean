import AnimationKit.Export.Format
import AnimationKit.Text.Quoted

/-!
What the library reports while it works.
-/
namespace AnimationKit

inductive Level where
  | debug
  | warn
deriving DecidableEq

def Level.name : Level → String
  | debug => "DEBUG"
  | warn => "WARN"

/-- A change to an element that the element refused. -/
inductive ElementFailure where
  | addClass (token : String)
  | removeClass (token : String)
  | setStyle (name : String)
  | removeStyle (name : String)
deriving DecidableEq

def ElementFailure.describe : ElementFailure → String
  | addClass token => "classList.add('" ++ token ++ "')"
  | removeClass token => "classList.remove('" ++ token ++ "')"
  | setStyle name => "style.setProperty('" ++ name ++ "')"
  | removeStyle name => "style.removeProperty('" ++ name ++ "')"

inductive Note where
  | previewDisabled (kind : Kind) (cause : AnimationError)
  | previewBound (token : Option String) (kind : Kind)
  | replayed (token : String) (key : UInt64)
  | paused
  | resumed
  | unbound
  | refreshed (format : ExportFormat) (kind : Kind) (bytes : Nat)
  | notExported (format : ExportFormat) (cause : AnimationError)
  | staleCopy (id : UInt64)
  | copyFailed (message : String)
  | badComponentName (name : String)
  /-- An element refused a change, for a reason that the host describes. -/
  | elementFailed (change : ElementFailure) (reason : String)
deriving DecidableEq

namespace Note

def level : Note → Level
  | previewDisabled .. | notExported .. | copyFailed _ | badComponentName _ | elementFailed .. =>
    .warn
  | previewBound .. | replayed .. | paused | resumed | unbound | refreshed .. | staleCopy _ =>
    .debug

def optionText : Option String → String
  | none => "None"
  | some text => "Some(" ++ Text.quoted text ++ ")"

def text : Note → String
  | previewDisabled kind cause => "preview disabled for '" ++ kind.name ++ "': " ++ cause.message
  | previewBound token kind =>
    "preview bound " ++ optionText token ++ " for '" ++ kind.name ++ "'"
  | replayed token key => "preview replay " ++ token ++ " (key " ++ toString key.toNat ++ ")"
  | paused => "preview paused"
  | resumed => "preview running"
  | unbound => "preview unbound"
  | refreshed format kind bytes =>
    "regenerated " ++ format.name ++ " export for '" ++ kind.name ++ "' (" ++ toString bytes ++
      " bytes)"
  | notExported format cause => "no " ++ format.name ++ " export: " ++ cause.message
  | staleCopy id => "dropping stale copy result " ++ toString id.toNat
  | copyFailed message => "copy to clipboard failed: " ++ message
  | badComponentName name => "ignoring invalid component name '" ++ name ++ "'"
  | elementFailed change reason => change.describe ++ " failed: " ++ reason

end Note
end AnimationKit
