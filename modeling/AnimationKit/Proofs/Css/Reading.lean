import AnimationKit.Css
import AnimationKit.Proofs.Text.Cutting

/-! A block of an expanded sheet is read back from its text. -/
namespace AnimationKit.Css

open Text

variable {declaration : Declaration} {declarations : List Declaration} {step : Step}
  {steps : List Step} {rule : Rule} {block : Block} {rest : List (List Char)}

/-! Reading. -/

def readDeclaration? (line : List Char) : Option Declaration := do
  let inside ← between? "    ".toList [';'] line
  let (property, value) := cutFirst ':' inside
  return ⟨.ofList property, .literal (.ofList (value.drop 1))⟩

/-- Reads steps from their last line on: the declarations of a step that began further up, and the
steps behind it. -/
def readSteps? : List (List Char) → Option (List Declaration × List Step)
  | [] => some ([], [])
  | line :: rest => do
    let (declarations, steps) ← readSteps? rest
    if line = "  \x7d".toList then return ([], steps)
    match readDeclaration? line with
    | some declaration => return (declaration :: declarations, steps)
    | none =>
      let percentage ← between? "  ".toList " \x7b".toList line
      return ([], ⟨.ofList percentage, declarations⟩ :: steps)

/-- Reads a rule and the empty line before it. -/
def readRule? : List (List Char) → Option Rule
  | _ :: selector :: animation :: _ => do
    let selector ← between? ".".toList " \x7b".toList selector
    let inside ← between? "  animation: ".toList " both;".toList animation
    let (keyframes, inside) := cutFirst ' ' inside
    let (duration, inside) := cutFirst ' ' inside
    let (easing, delay) := cutLast ' ' inside
    return ⟨.ofList selector, .ofList keyframes, .literal (.ofList duration),
      .literal (.ofList easing), .literal (.ofList delay)⟩
  | _ => none

def Block.read? (text : String) : Option Block :=
  match lines text.toList with
  | header :: rest => do
    let name ← between? "@keyframes ".toList " \x7b".toList header
    let (stepLines, ruleLines) := cutFirst ['\x7d'] rest
    let (_, steps) ← readSteps? stepLines
    let rule ← readRule? ruleLines
    return ⟨.ofList name, steps, rule⟩
  | [] => none

/-! Blocks whose parts do not hold the marks between them. -/

/-- A literal without any of the marks. -/
def Value.Plain (marks : List Char) (value : Value) : Prop :=
  ∃ text, value = .literal text ∧ Avoids marks text.toList

structure Declaration.Plain (declaration : Declaration) : Prop where
  property : Avoids [':', '\n'] declaration.property.toList
  value : declaration.value.Plain ['\n']

structure Step.Plain (step : Step) : Prop where
  percentage : Avoids [' ', '\n'] step.percentage.toList
  declarations : ∀ declaration ∈ step.declarations, declaration.Plain

structure Rule.Plain (rule : Rule) : Prop where
  selector : Avoids ['\n'] rule.selector.toList
  keyframes : Avoids [' ', '\n'] rule.keyframes.toList
  duration : rule.duration.Plain [' ', '\n']
  easing : rule.easing.Plain ['\n']
  delay : rule.delay.Plain [' ', '\n']

structure Block.Plain (block : Block) : Prop where
  name : Avoids ['\n'] block.name.toList
  steps : ∀ step ∈ block.steps, step.Plain
  rule : block.rule.Plain

/-! The lines of a block. -/

def Declaration.line (declaration : Declaration) : List Char :=
  "    ".toList ++ declaration.render.toList

def Step.opening (step : Step) : List Char :=
  "  ".toList ++ step.percentage.toList ++ " \x7b".toList

def Step.lines (step : Step) : List (List Char) :=
  step.opening :: step.declarations.map Declaration.line ++ ["  \x7d".toList]

def Rule.lines (rule : Rule) : List (List Char) :=
  [".".toList ++ rule.selector.toList ++ " \x7b".toList,
   "  animation: ".toList ++ (rule.keyframes.toList ++ ' ' :: (rule.duration.render.toList ++
      ' ' :: (rule.easing.render.toList ++ ' ' :: rule.delay.render.toList))) ++ " both;".toList,
   ['\x7d']]

def Block.lines (block : Block) : List (List Char) :=
  ("@keyframes ".toList ++ block.name.toList ++ " \x7b".toList) ::
    (block.steps.flatMap Step.lines ++ ['\x7d'] :: [] :: block.rule.lines)

theorem toList_step : (step.render .expanded).toList = unlines step.lines := by
  have hopening : " \x7b\n".toList = " \x7b".toList ++ ['\n'] := rfl
  have hclosing : "  \x7d\n".toList = "  \x7d".toList ++ ['\n'] := rfl
  have hline : "\n".toList = ['\n'] := rfl
  unfold Step.render Step.lines Step.opening Declaration.line
  simp only [unlines, String.toList_join, List.flatMap_map,
    String.toList_append, hopening, hclosing, hline, List.flatMap_cons,
    List.flatMap_append, List.flatMap_nil, List.append_assoc, List.cons_append, List.nil_append,
    List.append_nil]

theorem toList_rule : rule.render.toList = unlines rule.lines := by
  have hopening : " \x7b\n  animation: ".toList =
      " \x7b".toList ++ '\n' :: "  animation: ".toList := rfl
  have hclosing : " both;\n\x7d\n".toList = " both;".toList ++ ['\n', '\x7d', '\n'] := rfl
  have hblank : " ".toList = [' '] := rfl
  unfold Rule.render Rule.lines
  simp only [unlines, String.toList_append, hopening, hclosing, hblank,
    List.flatMap_cons, List.flatMap_nil, List.append_assoc, List.cons_append, List.nil_append,
    List.append_nil]

theorem unlines_flatMap (steps : List Step) :
    unlines (steps.flatMap Step.lines) = steps.flatMap fun step => unlines step.lines := by
  rw [unlines, List.flatMap_assoc]
  rfl

theorem toList_block : (Sheet.render .expanded [block]).toList = unlines block.lines := by
  have hsteps : (String.join (block.steps.map (Step.render .expanded))).toList =
      unlines (block.steps.flatMap Step.lines) := by
    rw [unlines_flatMap, String.toList_join, List.flatMap_map]
    simp only [toList_step]
  have hopening : " \x7b\n".toList = " \x7b".toList ++ ['\n'] := rfl
  have hclosing : "\x7d\n\n".toList = ['\x7d', '\n', '\n'] := rfl
  rw [unlines] at hsteps
  unfold Sheet.render Block.lines
  rw [List.map_singleton, String.intercalate_singleton]
  unfold Block.render
  simp only [String.toList_append, hsteps, toList_rule, hopening, hclosing, unlines,
    List.flatMap_cons, List.flatMap_append, List.append_assoc, List.cons_append, List.nil_append]

/-! Reading the lines. -/

theorem readDeclaration?_line (h : declaration.Plain) :
    readDeclaration? declaration.line = some declaration := by
  obtain ⟨property, value⟩ := declaration
  obtain ⟨text, rfl, -⟩ := h.value
  have hline : Declaration.line ⟨property, .literal text⟩ =
      "    ".toList ++ (property.toList ++ ':' :: ' ' :: text.toList) ++ [';'] := by
    unfold Declaration.line Declaration.render Value.render
    simp
  have hmark : ':' ∉ property.toList := h.property.not_mem (by simp)
  rw [hline, readDeclaration?, between?_append]
  simp [cutFirst_append hmark, String.ofList_toList]

theorem declaration_line_ne : declaration.line ≠ "  \x7d".toList := by
  intro h
  unfold Declaration.line at h
  simp at h

theorem opening_ne : step.opening ≠ "  \x7d".toList := by
  intro h
  have hopening : step.opening = "  ".toList ++ step.percentage.toList ++ [' '] ++ ['\x7b'] := by
    unfold Step.opening
    simp
  have hlast := congrArg List.getLast? h
  rw [hopening, List.getLast?_concat] at hlast
  simp at hlast

/-- A percentage is not indented like a declaration. -/
theorem readDeclaration?_opening (h : step.Plain) : readDeclaration? step.opening = none := by
  have hprefix : ¬ "    ".toList <+: step.opening := by
    rintro ⟨behind, hb⟩
    unfold Step.opening at hb
    have hblank : ' ' ∉ step.percentage.toList := h.percentage.not_mem (by simp)
    cases hp : step.percentage.toList with
    | nil => simp [hp] at hb
    | cons c chars =>
      simp only [hp, String.reduceToList, List.cons_append, List.nil_append,
        List.cons.injEq, true_and] at hb
      exact hblank (by rw [hp, ← hb.1]; exact List.mem_cons_self)
  rw [readDeclaration?, between?_of_not_prefix hprefix]
  rfl

theorem readSteps?_declarations {below : List Declaration}
    (h : ∀ declaration ∈ declarations, declaration.Plain)
    (hrest : readSteps? rest = some (below, steps)) :
    readSteps? (declarations.map Declaration.line ++ "  \x7d".toList :: rest) =
      some (declarations, steps) := by
  induction declarations with
  | nil => simp [readSteps?, hrest]
  | cons declaration declarations ih =>
    have hdeclaration := readDeclaration?_line (h declaration List.mem_cons_self)
    have ih := ih fun d hd => h d (List.mem_cons_of_mem _ hd)
    rw [List.map_cons, List.cons_append, readSteps?, ih]
    simp only [Option.bind_eq_bind, Option.bind_some, if_neg declaration_line_ne, hdeclaration]
    rfl

theorem readSteps?_step {below : List Declaration} (h : step.Plain)
    (hrest : readSteps? rest = some (below, steps)) :
    readSteps? (step.lines ++ rest) = some ([], step :: steps) := by
  have hdeclarations := readSteps?_declarations h.declarations hrest
  have hpercentage : between? "  ".toList " \x7b".toList step.opening =
      some step.percentage.toList := between?_append
  rw [Step.lines, List.cons_append, List.cons_append, List.append_assoc, List.singleton_append,
    readSteps?, hdeclarations]
  simp only [Option.bind_eq_bind, Option.bind_some, if_neg opening_ne, readDeclaration?_opening h,
    hpercentage, String.ofList_toList]
  rfl

theorem readSteps?_steps (h : ∀ step ∈ steps, step.Plain) :
    readSteps? (steps.flatMap Step.lines) = some ([], steps) := by
  induction steps with
  | nil => rfl
  | cons step steps ih =>
    rw [List.flatMap_cons]
    exact readSteps?_step (h step List.mem_cons_self)
      (ih fun s hs => h s (List.mem_cons_of_mem _ hs))

theorem readRule?_lines (h : rule.Plain) :
    readRule? ([] :: rule.lines ++ rest) = some rule := by
  obtain ⟨selector, keyframes, duration, easing, delay⟩ := rule
  obtain ⟨duration, rfl, hduration⟩ := h.duration
  obtain ⟨easing, rfl, -⟩ := h.easing
  obtain ⟨delay, rfl, hdelay⟩ := h.delay
  have hkeyframes : ' ' ∉ keyframes.toList := h.keyframes.not_mem (by simp)
  have hduration : ' ' ∉ duration.toList := hduration.not_mem (by simp)
  have hdelay : ' ' ∉ delay.toList := hdelay.not_mem (by simp)
  simp only [Rule.lines, readRule?, List.cons_append, between?_append, Option.bind_eq_bind,
    Option.bind_some, Value.render, cutFirst_append hkeyframes, cutFirst_append hduration,
    cutLast_append hdelay, String.ofList_toList]
  rfl

/-! No line holds the end of a line, and no step the line that ends the keyframes. -/

theorem avoids_declaration_line (h : declaration.Plain) : Avoids ['\n'] declaration.line := by
  obtain ⟨property, value⟩ := declaration
  obtain ⟨text, rfl, htext⟩ := h.value
  have hproperty : Avoids ['\n'] property.toList := h.property.mono (by simp)
  have hindent : Avoids ['\n'] "    ".toList := by decide
  have hcolon : Avoids ['\n'] ": ".toList := by decide
  have hend : Avoids ['\n'] ";".toList := by decide
  unfold Declaration.line Declaration.render Value.render
  simp only [String.toList_append]
  exact hindent.append (((hproperty.append hcolon).append htext).append hend)

theorem avoids_opening (h : step.Plain) : Avoids ['\n'] step.opening := by
  have hindent : Avoids ['\n'] "  ".toList := by decide
  have hend : Avoids ['\n'] " \x7b".toList := by decide
  exact (hindent.append (h.percentage.mono (by simp))).append hend

theorem avoids_step {line : List Char} (h : step.Plain) (hline : line ∈ step.lines) :
    Avoids ['\n'] line := by
  rw [Step.lines, List.cons_append, List.mem_cons, List.mem_append, List.mem_map,
    List.mem_singleton] at hline
  rcases hline with rfl | ⟨declaration, hd, rfl⟩ | rfl
  · exact avoids_opening h
  · exact avoids_declaration_line (h.declarations declaration hd)
  · decide

/-- Every line of a step is indented. -/
theorem head?_step {line : List Char} (hline : line ∈ step.lines) : line.head? = some ' ' := by
  rw [Step.lines, List.cons_append, List.mem_cons, List.mem_append, List.mem_map,
    List.mem_singleton] at hline
  rcases hline with rfl | ⟨declaration, hd, rfl⟩ | rfl <;> rfl

theorem avoids_rule {line : List Char} (hselector : Avoids ['\n'] rule.selector.toList)
    (hkeyframes : Avoids ['\n'] rule.keyframes.toList)
    (hduration : Avoids ['\n'] rule.duration.render.toList)
    (heasing : Avoids ['\n'] rule.easing.render.toList)
    (hdelay : Avoids ['\n'] rule.delay.render.toList) (hline : line ∈ rule.lines) :
    Avoids ['\n'] line := by
  simp only [Rule.lines, List.mem_cons, List.not_mem_nil, or_false] at hline
  rcases hline with rfl | rfl | rfl
  · have hdot : Avoids ['\n'] ".".toList := by decide
    have hend : Avoids ['\n'] " \x7b".toList := by decide
    exact (hdot.append hselector).append hend
  · have hopening : Avoids ['\n'] "  animation: ".toList := by decide
    have hend : Avoids ['\n'] " both;".toList := by decide
    have hblank : Avoids ['\n'] [' '] := by decide
    exact (hopening.append (hkeyframes.append (hblank.append (hduration.append
      (hblank.append (heasing.append (hblank.append hdelay))))))).append hend
  · decide

theorem Value.Plain.avoids {marks : List Char} {value : Value} (h : value.Plain marks) :
    Avoids marks value.render.toList := by
  obtain ⟨text, rfl, htext⟩ := h
  exact htext

theorem avoids_block {line : List Char} (h : block.Plain) (hline : line ∈ block.lines) :
    Avoids ['\n'] line := by
  simp only [Block.lines, List.mem_cons, List.mem_append, List.mem_flatMap] at hline
  rcases hline with rfl | ⟨step, hs, hline⟩ | rfl | rfl | hline
  · have hopening : Avoids ['\n'] "@keyframes ".toList := by decide
    have hend : Avoids ['\n'] " \x7b".toList := by decide
    exact (hopening.append h.name).append hend
  · exact avoids_step (h.steps step hs) hline
  · decide
  · decide
  · exact avoids_rule h.rule.selector (h.rule.keyframes.mono (by simp))
      (h.rule.duration.avoids.mono (by simp)) h.rule.easing.avoids
      (h.rule.delay.avoids.mono (by simp)) hline

/-- A block is read back from its text. -/
theorem read?_render (h : block.Plain) :
    Block.read? (Sheet.render .expanded [block]) = some block := by
  have hlines : Text.lines (Sheet.render .expanded [block]).toList = block.lines ++ [[]] := by
    rw [toList_block, lines_unlines]
    exact fun line hline => (avoids_block h hline).not_mem (by simp)
  have hname : between? "@keyframes ".toList " \x7b".toList
      ("@keyframes ".toList ++ block.name.toList ++ " \x7b".toList) = some block.name.toList :=
    between?_append
  have hinside : ['\x7d'] ∉ block.steps.flatMap Step.lines := by
    intro hline
    obtain ⟨step, -, hline⟩ := List.mem_flatMap.mp hline
    have hhead := head?_step hline
    simp at hhead
  have hrest : (block.steps.flatMap Step.lines ++ ['\x7d'] :: [] :: block.rule.lines) ++ [[]] =
      block.steps.flatMap Step.lines ++ ['\x7d'] :: ([] :: block.rule.lines ++ [[]]) := by
    simp
  rw [Block.read?, hlines, Block.lines, List.cons_append, hrest]
  simp only [hname, cutFirst_append hinside, Option.bind_eq_bind, Option.bind_some,
    readSteps?_steps h.steps, readRule?_lines h.rule, String.ofList_toList]
  rfl

end AnimationKit.Css
