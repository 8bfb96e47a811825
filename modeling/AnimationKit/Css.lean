/-!
Style sheets: keyframes and the class rules that run them. A value may refer to a custom property
of the element, with a fallback for elements that do not set it.
-/
namespace AnimationKit.Css

/-- The value of a declaration. -/
inductive Value where
  | literal (text : String)
  /-- The element's custom property, or the fallback where it has none. -/
  | reference (name fallback : String)
  /-- A length times a number. -/
  | product (length : Value) (factor : String)
  | call (function : String) (argument : Value)
deriving DecidableEq

def Value.render : Value → String
  | literal text => text
  | reference name fallback => "var(" ++ name ++ ", " ++ fallback ++ ")"
  | product length factor => "calc(" ++ length.render ++ " * " ++ factor ++ ")"
  | call function argument => function ++ "(" ++ argument.render ++ ")"

structure Declaration where
  property : String
  value : Value
deriving DecidableEq

def Declaration.render (declaration : Declaration) : String :=
  declaration.property ++ ": " ++ declaration.value.render ++ ";"

/-- The declarations that hold at a percentage of the duration. -/
structure Step where
  percentage : String
  declarations : List Declaration
deriving DecidableEq

/-- A class rule that runs keyframes and keeps their first and last step in force. -/
structure Rule where
  selector : String
  keyframes : String
  duration : Value
  easing : Value
  delay : Value
deriving DecidableEq

/-- Keyframes and the class rule for them. -/
structure Block where
  name : String
  steps : List Step
  rule : Rule
deriving DecidableEq

abbrev Sheet := List Block

/-- Whether each step takes one line, or each declaration a line of its own. -/
inductive Style where
  | compact
  | expanded

def Step.render (style : Style) (step : Step) : String :=
  match style with
  | .compact =>
    "  " ++ step.percentage ++ " \x7b " ++
      " ".intercalate (step.declarations.map Declaration.render) ++ " \x7d\n"
  | .expanded =>
    "  " ++ step.percentage ++ " \x7b\n" ++
      String.join (step.declarations.map fun d => "    " ++ d.render ++ "\n") ++ "  \x7d\n"

def Rule.render (rule : Rule) : String :=
  "." ++ rule.selector ++ " \x7b\n  animation: " ++ rule.keyframes ++ " " ++
    rule.duration.render ++ " " ++ rule.easing.render ++ " " ++ rule.delay.render ++
    " both;\n\x7d\n"

def Block.render (style : Style) (block : Block) : String :=
  "@keyframes " ++ block.name ++ " \x7b\n" ++
    String.join (block.steps.map (Step.render style)) ++ "\x7d\n\n" ++ block.rule.render

/-- The text of a sheet; a blank line stands between its parts. -/
def Sheet.render (style : Style) (sheet : Sheet) : String :=
  "\n".intercalate (sheet.map (Block.render style))

end AnimationKit.Css
