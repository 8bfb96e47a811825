/-!
Elements of a page, as far as previews touch them: classes in order, inline style, and how often an
animation was started, a style written and the layout flushed.
-/
namespace AnimationKit

/-- A change that is asked of an element. -/
inductive ElementCall where
  | addClass (token : String)
  | removeClass (token : String)
  | setStyle (name value : String)
  | removeStyle (name : String)
  /-- Flushes the layout, so that a class removed and added again restarts its animation. -/
  | reflow
deriving DecidableEq

/-- Inline style: values by property name, names ascending. -/
abbrev InlineStyle := List (String × String)

namespace InlineStyle

def set (name value : String) : InlineStyle → InlineStyle
  | [] => [(name, value)]
  | entry :: rest =>
    if name < entry.1 then (name, value) :: entry :: rest
    else if name = entry.1 then (name, value) :: rest
    else entry :: set name value rest

def remove (name : String) (style : InlineStyle) : InlineStyle :=
  style.filter fun entry => entry.1 != name

end InlineStyle

structure Element where
  classes : List String := []
  style : InlineStyle := []
  /-- How often a class was added that was not there; each one starts an animation. -/
  animationStarts : Nat := 0
  styleWrites : Nat := 0
  reflows : Nat := 0
deriving DecidableEq

namespace Element

def apply (element : Element) : ElementCall → Element
  | .addClass token =>
    if token ∈ element.classes then element
    else
      { element with
        classes := element.classes ++ [token]
        animationStarts := element.animationStarts + 1 }
  | .removeClass token =>
    { element with classes := element.classes.filter fun c => c != token }
  | .setStyle name value =>
    { element with
      style := element.style.set name value
      styleWrites := element.styleWrites + 1 }
  | .removeStyle name => { element with style := element.style.remove name }
  | .reflow => { element with reflows := element.reflows + 1 }

/-- No class of a preview is left, and no inline style at all. -/
def isClean (element : Element) : Bool :=
  element.classes.all (fun c => !"mf-".isPrefixOf c) && element.style.isEmpty

end Element
end AnimationKit
