import AnimationKit.Proofs.Css.Reading

/-!
Compact sheets are read back from their text. Their keyframes and their rules are paragraphs of
their own, and their values may be references, products and calls.
-/
namespace AnimationKit.Css

open Text

variable {value : Value} {declaration : Declaration} {declarations : List Declaration} {step : Step}
  {rule : Rule} {block : Block} {sheet : Sheet} {chars rest : List Char} {depth : Nat}

/-! Reading. -/

/-- A part of a sheet that stands by itself. -/
inductive Statement where
  | keyframes (name : String) (steps : List Step)
  | rule (rule : Rule)
deriving DecidableEq

/-- Reads a value with no more brackets inside each other than the bound. -/
def readValue? : Nat → List Char → Option Value
  | 0, _ => none
  | bound + 1, chars =>
    if '(' ∈ chars then do
      let (function, rest) := cutFirst '(' chars
      let inside ← between? [] [')'] rest
      if function = "var".toList then
        let (name, fallback) := cutFirst ',' inside
        return .reference (.ofList name) (.ofList (fallback.drop 1))
      else if function = "calc".toList then
        let (length, factor) := cutLast '*' inside
        return .product (← readValue? bound length.dropLast) (.ofList (factor.drop 1))
      else return .call (.ofList function) (← readValue? bound inside)
    else return .literal (.ofList chars)

def readWholeValue? (chars : List Char) : Option Value := readValue? (chars.length + 1) chars

/-- Reads a declaration behind a blank, without the mark at its end. -/
def readItem? (chars : List Char) : Option Declaration := do
  let (property, value) := cutFirst ':' (chars.drop 1)
  return ⟨.ofList property, ← readWholeValue? (value.drop 1)⟩

def readStep? (line : List Char) : Option Step := do
  let inside ← between? "  ".toList " \x7d".toList line
  let (percentage, entries) := cutFirst ' ' inside
  let declarations ← (splitOn ';' (entries.drop 1)).dropLast.mapM readItem?
  return ⟨.ofList percentage, declarations⟩

/-- The words of a text. A blank inside of brackets does not end a word. -/
def words (depth : Nat) : List Char → List (List Char)
  | [] => [[]]
  | c :: rest =>
    if c = ' ' ∧ depth = 0 then [] :: words 0 rest
    else
      let inside := if c = '(' then depth + 1 else if c = ')' then depth - 1 else depth
      (words inside rest).modifyHead (c :: ·)

def readClass? : List (List Char) → Option Rule
  | [selector, animation, ['\x7d']] => do
    let selector ← between? ".".toList " \x7b".toList selector
    let inside ← between? "  animation: ".toList ";".toList animation
    match words 0 inside with
    | [keyframes, duration, easing, delay, fill] =>
      if fill = "both".toList then
        return ⟨.ofList selector, .ofList keyframes, ← readWholeValue? duration,
          ← readWholeValue? easing, ← readWholeValue? delay⟩
      else none
    | _ => none
  | _ => none

def readStatement? (paragraph : List (List Char)) : Option Statement :=
  match paragraph.head?.bind (between? "@keyframes ".toList " \x7b".toList) with
  | some name =>
    if paragraph.getLast? = some ['\x7d'] then
      .keyframes (.ofList name) <$> paragraph.tail.dropLast.mapM readStep?
    else none
  | none => .rule <$> readClass? paragraph

/-- Statements have empty lines between them. -/
def Sheet.read? (text : String) : Option (List Statement) :=
  ((splitOn [] (lines text.toList)).filter (· ≠ [])).mapM readStatement?

/-- The animation or the class that a statement is about. -/
def Statement.name : Statement → String
  | .keyframes name _ => name
  | .rule rule => rule.selector

@[simp]
theorem Statement.name_keyframes (name : String) (steps : List Step) :
    (Statement.keyframes name steps).name = name := rfl

@[simp]
theorem Statement.name_rule (rule : Rule) : (Statement.rule rule).name = rule.selector := rfl

/-- Under the name of a block, the text of a sheet has the keyframes of the block and its rule, and
nothing else. -/
def Declares (text : String) (block : Block) : Prop :=
  ∃ statements, Sheet.read? text = some statements ∧
    statements.filter (fun statement => statement.name = block.name) =
      [.keyframes block.name block.steps, .rule block.rule]

/-! Sheets whose parts do not hold the marks between them. -/

/-- No part of a value holds the brackets and the marks around it. -/
inductive Value.Legible : Value → Prop
  | literal {text : String} (htext : Avoids ['(', ';', '\n'] text.toList) : Legible (.literal text)
  | reference {name fallback : String} (hname : Avoids [',', ';', '\n'] name.toList)
      (hfallback : Avoids [';', '\n'] fallback.toList) : Legible (.reference name fallback)
  | product {length : Value} {factor : String} (hlength : Legible length)
      (hfactor : Avoids ['*', ';', '\n'] factor.toList) : Legible (.product length factor)
  | call {function : String} {argument : Value} (hargument : Legible argument)
      (hfunction : Avoids ['(', ';', '\n'] function.toList) (hname : function ∉ ["var", "calc"]) :
      Legible (.call function argument)

/-- A value that is one word: brackets around text without brackets, or text without blanks. -/
inductive Value.Word : Value → Prop
  | literal {text : String} (htext : Avoids ['(', ')', ' '] text.toList) : Word (.literal text)
  | reference {name fallback : String} (hname : Avoids ['(', ')'] name.toList)
      (hfallback : Avoids ['(', ')'] fallback.toList) : Word (.reference name fallback)

structure Declaration.Legible (declaration : Declaration) : Prop where
  property : Avoids [':', ';', '\n'] declaration.property.toList
  value : declaration.value.Legible

structure Step.Legible (step : Step) : Prop where
  percentage : Avoids [' ', '\n'] step.percentage.toList
  declared : step.declarations ≠ []
  declarations : ∀ declaration ∈ step.declarations, declaration.Legible

structure Rule.Legible (rule : Rule) : Prop where
  selector : Avoids ['\n'] rule.selector.toList
  keyframes : Avoids ['(', ')', ' ', '\n'] rule.keyframes.toList
  duration : rule.duration.Legible ∧ rule.duration.Word
  easing : rule.easing.Legible ∧ rule.easing.Word
  delay : rule.delay.Legible ∧ rule.delay.Word

structure Block.Legible (block : Block) : Prop where
  name : Avoids ['\n'] block.name.toList
  steps : ∀ step ∈ block.steps, step.Legible
  rule : block.rule.Legible

/-! Values. -/

/-- A function is read with what stands between its brackets. -/
theorem readValue?_brackets {function inside : List Char} (bound : Nat) (h : '(' ∉ function) :
    readValue? (bound + 1) (function ++ '(' :: (inside ++ [')'])) =
      if function = "var".toList then
        let (name, fallback) := cutFirst ',' inside
        some (.reference (.ofList name) (.ofList (fallback.drop 1)))
      else if function = "calc".toList then
        let (length, factor) := cutLast '*' inside
        (readValue? bound length.dropLast).map (.product · (.ofList (factor.drop 1)))
      else (readValue? bound inside).map (.call (.ofList function)) := by
  have hbracket : '(' ∈ function ++ '(' :: (inside ++ [')']) := by simp
  have hinside : between? [] [')'] (inside ++ [')']) = some inside := by
    rw [← List.nil_append inside]
    exact between?_append
  rw [readValue?, if_pos hbracket, cutFirst_append h]
  simp only [hinside, Option.bind_eq_bind, Option.bind_some, Option.map_eq_bind]
  rfl

/-- What stands between brackets is shorter, so that a bound is left for it. -/
theorem exists_bound {function inside : List Char} {bound : Nat}
    (h : (function ++ '(' :: (inside ++ [')'])).length < bound + 1) :
    ∃ inner, bound = inner + 1 ∧ inside.length < inner + 1 := by
  rw [List.length_append, List.length_cons, List.length_append, List.length_singleton] at h
  exact ⟨bound - 1, by omega, by omega⟩

theorem readValue?_render (h : value.Legible) {bound : Nat}
    (hbound : value.render.toList.length < bound) :
    readValue? bound value.render.toList = some value := by
  obtain ⟨bound, rfl⟩ := Nat.exists_eq_add_one.mpr (Nat.zero_lt_of_lt hbound)
  induction h generalizing bound with
  | @literal text htext =>
    have hbracket : '(' ∉ text.toList := htext.not_mem (by simp)
    rw [Value.render, readValue?, if_neg hbracket, String.ofList_toList]
    rfl
  | @reference name fallback hname hfallback =>
    have hcomma : ',' ∉ name.toList := hname.not_mem (by simp)
    have htext : (Value.reference name fallback).render.toList =
        "var".toList ++ '(' :: ((name.toList ++ ',' :: ' ' :: fallback.toList) ++ [')']) := by
      simp [Value.render]
    rw [htext, readValue?_brackets bound (by simp), if_pos rfl, cutFirst_append hcomma]
    simp [String.ofList_toList]
  | @product length factor _ hfactor ih =>
    have hstar : '*' ∉ ' ' :: factor.toList := by
      have hstar : '*' ∉ factor.toList := hfactor.not_mem (by simp)
      simpa using hstar
    have htext : (Value.product length factor).render.toList = "calc".toList ++
        '(' :: (((length.render.toList ++ [' ']) ++ '*' :: ' ' :: factor.toList) ++ [')']) := by
      simp [Value.render]
    rw [htext] at hbound ⊢
    obtain ⟨inner, rfl, hinner⟩ := exists_bound hbound
    rw [List.length_append, List.length_append] at hinner
    have hlength := ih inner (by omega)
    rw [readValue?_brackets _ (by simp), if_neg (by simp), if_pos rfl, cutLast_append hstar]
    simp [hlength, String.ofList_toList]
  | @call function argument _ hfunction hname ih =>
    have hbracket : '(' ∉ function.toList := hfunction.not_mem (by simp)
    have htext : (Value.call function argument).render.toList =
        function.toList ++ '(' :: (argument.render.toList ++ [')']) := by
      simp [Value.render]
    rw [htext] at hbound ⊢
    obtain ⟨inner, rfl, hinner⟩ := exists_bound hbound
    have hargument := ih inner hinner
    simp only [List.mem_cons, List.not_mem_nil, or_false, not_or] at hname
    rw [readValue?_brackets _ hbracket, if_neg (by rw [String.toList_inj]; exact hname.1),
      if_neg (by rw [String.toList_inj]; exact hname.2), hargument, Option.map_some,
      String.ofList_toList]

theorem Value.Legible.avoids (h : value.Legible) : Avoids [';', '\n'] value.render.toList := by
  have hclosing : Avoids [';', '\n'] ")".toList := by decide
  induction h with
  | literal htext => exact htext.mono (by simp)
  | reference hname hfallback =>
    have hopening : Avoids [';', '\n'] "var(".toList := by decide
    have hcomma : Avoids [';', '\n'] ", ".toList := by decide
    simp only [Value.render, String.toList_append]
    exact (((hopening.append (hname.mono (by simp))).append hcomma).append hfallback).append
      hclosing
  | product hlength hfactor ih =>
    have hopening : Avoids [';', '\n'] "calc(".toList := by decide
    have hstar : Avoids [';', '\n'] " * ".toList := by decide
    simp only [Value.render, String.toList_append]
    exact (((hopening.append ih).append hstar).append (hfactor.mono (by simp))).append hclosing
  | call hargument hfunction hname ih =>
    have hopening : Avoids [';', '\n'] "(".toList := by decide
    simp only [Value.render, String.toList_append]
    exact (((hfunction.mono (by simp)).append hopening).append ih).append hclosing

theorem readWholeValue?_render (h : value.Legible) :
    readWholeValue? value.render.toList = some value :=
  readValue?_render h (Nat.lt_succ_self _)

/-! Steps. -/

/-- A declaration behind a blank, without the mark at its end. -/
def Declaration.entry (declaration : Declaration) : List Char :=
  ' ' :: (declaration.property.toList ++ ':' :: ' ' :: declaration.value.render.toList)

theorem readItem?_entry (h : declaration.Legible) :
    readItem? declaration.entry = some declaration := by
  have hcolon : ':' ∉ declaration.property.toList := h.property.not_mem (by simp)
  simp only [readItem?, Declaration.entry, List.drop_succ_cons, List.drop_zero,
    cutFirst_append hcolon, readWholeValue?_render h.value, Option.bind_eq_bind, Option.bind_some,
    String.ofList_toList]
  rfl

theorem avoids_entry {marks : List Char} (hmarks : Avoids marks [' ', ':'])
    (hproperty : Avoids marks declaration.property.toList)
    (hvalue : Avoids marks declaration.value.render.toList) : Avoids marks declaration.entry := by
  obtain ⟨hblank, hcolon⟩ : Avoids marks [' '] ∧ Avoids marks [':'] := by
    rwa [← avoids_append]
  exact hblank.append (hproperty.append (hcolon.append (hblank.append hvalue)))

/-- A step without the end of its line. -/
def Step.line (step : Step) : List Char :=
  "  ".toList ++ (step.percentage.toList ++ ' ' :: '\x7b' ::
    (step.declarations.map Declaration.entry).flatMap fun entry => entry ++ [';']) ++ " \x7d".toList

theorem toList_declarations (h : declarations ≠ []) :
    ' ' :: (" ".intercalate (declarations.map Declaration.render)).toList =
      (declarations.map Declaration.entry).flatMap fun entry => entry ++ [';'] := by
  have hentry (d : Declaration) : ' ' :: d.render.toList = d.entry ++ [';'] := by
    unfold Declaration.render Declaration.entry
    simp
  obtain ⟨first, rest, rfl⟩ := List.exists_cons_of_ne_nil h
  have hblank : " ".toList = [' '] := rfl
  rw [List.map_cons, toList_intercalate_cons, List.map_cons, List.flatMap_cons, ← hentry,
    List.flatMap_map, List.flatMap_map]
  simp only [hblank, List.cons_append, List.nil_append, ← hentry]

theorem toList_compactStep (h : step.Legible) :
    (step.render .compact).toList = step.line ++ ['\n'] := by
  have hopening : " \x7b ".toList = [' ', '\x7b', ' '] := rfl
  have hclosing : " \x7d\n".toList = " \x7d".toList ++ ['\n'] := rfl
  unfold Step.render Step.line
  rw [← toList_declarations h.declared]
  simp only [String.toList_append, hopening, hclosing, List.append_assoc, List.cons_append,
    List.nil_append]

theorem readStep?_line (h : step.Legible) : readStep? step.line = some step := by
  have hblank : ' ' ∉ step.percentage.toList := h.percentage.not_mem (by simp)
  have hinside : between? "  ".toList " \x7d".toList step.line =
      some (step.percentage.toList ++ ' ' :: '\x7b' ::
        (step.declarations.map Declaration.entry).flatMap fun entry => entry ++ [';']) :=
    between?_append
  have hentries : splitOn ';' ((step.declarations.map Declaration.entry).flatMap
      fun entry => entry ++ [';']) = step.declarations.map Declaration.entry ++ [[]] := by
    have hmark : ∀ entry ∈ step.declarations.map Declaration.entry, ';' ∉ entry := by
      intro entry he
      obtain ⟨declaration, hd, rfl⟩ := List.mem_map.mp he
      have hlegible := h.declarations declaration hd
      have hentry : Avoids [';'] declaration.entry :=
        avoids_entry (by decide) (hlegible.property.mono (by simp))
          (hlegible.value.avoids.mono (by simp))
      exact hentry.not_mem (by simp)
    rw [← List.append_nil (List.flatMap _ _), splitOn_flatMap hmark]
    rfl
  have hread : (step.declarations.map Declaration.entry).mapM readItem? = some step.declarations :=
    mapM_read fun declaration hd => readItem?_entry (h.declarations declaration hd)
  simp only [readStep?, hinside, Option.bind_eq_bind, Option.bind_some, cutFirst_append hblank,
    List.drop_succ_cons, List.drop_zero, hentries, List.dropLast_concat, hread,
    String.ofList_toList]
  rfl

/-! Words. -/

/-- Text without brackets belongs to one word, if it is inside of brackets or has no blank. -/
theorem words_append (hbrackets : Avoids ['(', ')'] chars) (hblank : depth = 0 → ' ' ∉ chars) :
    words depth (chars ++ rest) = (words depth rest).modifyHead (chars ++ ·) := by
  induction chars with
  | nil =>
    rw [List.nil_append]
    exact (congrFun List.modifyHead_id _).symm
  | cons c chars ih =>
    obtain ⟨hopening, hclosing⟩ : c ≠ '(' ∧ c ≠ ')' := by
      simpa using hbrackets c List.mem_cons_self
    have hword : ¬ (c = ' ' ∧ depth = 0) := by
      rintro ⟨rfl, hdepth⟩
      exact hblank hdepth List.mem_cons_self
    have hrest := ih (fun d hd => hbrackets d (List.mem_cons_of_mem _ hd))
      fun hdepth hd => hblank hdepth (List.mem_cons_of_mem _ hd)
    simp only [List.cons_append, words, if_neg hword, if_neg hopening, if_neg hclosing, hrest,
      List.modifyHead_modifyHead]
    rfl

theorem words_render (h : value.Word) :
    words 0 (value.render.toList ++ rest) =
      (words 0 rest).modifyHead (value.render.toList ++ ·) := by
  cases h with
  | literal htext =>
    exact words_append (htext.mono (by simp)) fun _ => htext.not_mem (by simp)
  | @reference name fallback hname hfallback =>
    have htext : (Value.reference name fallback).render.toList ++ rest =
        "var".toList ++
          '(' :: ((name.toList ++ ", ".toList ++ fallback.toList) ++ ')' :: rest) := by
      simp [Value.render]
    have hinside : Avoids ['(', ')'] (name.toList ++ ", ".toList ++ fallback.toList) :=
      (hname.append (by decide)).append hfallback
    rw [htext, words_append (by decide) (fun _ => by decide), words, if_neg (by simp),
      if_pos rfl]
    dsimp only
    rw [words_append hinside (by simp), words, if_neg (by simp)]
    simp [Value.render, Function.comp_def]

/-- A word with a blank behind it. -/
theorem words_cons (h : value.Word) :
    words 0 (value.render.toList ++ ' ' :: rest) = value.render.toList :: words 0 rest := by
  rw [words_render h, words, if_pos ⟨rfl, rfl⟩]
  simp

theorem readClass?_lines (h : rule.Legible) : readClass? rule.lines = some rule := by
  have hname (rest : List Char) : words 0 (rule.keyframes.toList ++ ' ' :: rest) =
      rule.keyframes.toList :: words 0 rest :=
    words_cons (.literal (h.keyframes.mono (by simp)))
  have hlast : words 0 "both".toList = ["both".toList] := by decide
  have hselector : between? ".".toList " \x7b".toList
      (".".toList ++ rule.selector.toList ++ " \x7b".toList) = some rule.selector.toList :=
    between?_append
  have hanimation : between? "  animation: ".toList ";".toList
      ("  animation: ".toList ++ (rule.keyframes.toList ++ ' ' :: (rule.duration.render.toList ++
        ' ' :: (rule.easing.render.toList ++ ' ' :: rule.delay.render.toList))) ++
        " both;".toList) =
      some (rule.keyframes.toList ++ ' ' :: (rule.duration.render.toList ++
        ' ' :: (rule.easing.render.toList ++ ' ' :: (rule.delay.render.toList ++
          ' ' :: "both".toList)))) := by
    rw [between?_eq_some_iff]
    simp
  simp only [Rule.lines, readClass?, hselector, hanimation, Option.bind_eq_bind, Option.bind_some,
    hname, words_cons h.duration.2, words_cons h.easing.2, words_cons h.delay.2, hlast,
    readWholeValue?_render h.duration.1, readWholeValue?_render h.easing.1,
    readWholeValue?_render h.delay.1, String.ofList_toList]
  rfl

/-! Statements. -/

def Statement.Legible : Statement → Prop
  | .keyframes name steps => Avoids ['\n'] name.toList ∧ ∀ step ∈ steps, step.Legible
  | .rule rule => rule.Legible

def Statement.lines : Statement → List (List Char)
  | .keyframes name steps =>
    ("@keyframes ".toList ++ name.toList ++ " \x7b".toList) ::
      (steps.map Step.line ++ [['\x7d']])
  | .rule rule => rule.lines

theorem readStatement?_lines {statement : Statement} (h : statement.Legible) :
    readStatement? statement.lines = some statement := by
  cases statement with
  | keyframes name steps =>
    obtain ⟨-, hsteps⟩ := h
    have hname : between? "@keyframes ".toList " \x7b".toList
        ("@keyframes ".toList ++ name.toList ++ " \x7b".toList) = some name.toList :=
      between?_append
    have hread : (steps.map Step.line).mapM readStep? = some steps :=
      mapM_read fun step hs => readStep?_line (hsteps step hs)
    simp only [Statement.lines, readStatement?, List.head?_cons, Option.bind_some, hname,
      List.getLast?_cons, List.getLast?_append, List.tail_cons, List.dropLast_concat, hread,
      String.ofList_toList]
    rfl
  | rule rule =>
    have hname : ¬ "@keyframes ".toList <+:
        ".".toList ++ rule.selector.toList ++ " \x7b".toList := by
      simp
    have hread := readClass?_lines h
    simp only [Rule.lines] at hread
    simp only [Statement.lines, readStatement?, Rule.lines, List.head?_cons, Option.bind_some,
      between?_of_not_prefix hname, hread]
    rfl

/-- The statements of a sheet, in the order in which they are written. -/
def Sheet.statements (sheet : Sheet) : List Statement :=
  sheet.flatMap fun block => [.keyframes block.name block.steps, .rule block.rule]

theorem legible_statements (h : ∀ block ∈ sheet, block.Legible) :
    ∀ statement ∈ sheet.statements, statement.Legible := by
  intro statement hstatement
  obtain ⟨block, hb, hstatement⟩ := List.mem_flatMap.mp hstatement
  simp only [List.mem_cons, List.not_mem_nil, or_false] at hstatement
  rcases hstatement with rfl | rfl
  · exact ⟨(h block hb).name, (h block hb).steps⟩
  · exact (h block hb).rule

theorem toList_compactBlock (h : ∀ step ∈ block.steps, step.Legible) :
    (block.render .compact).toList =
      unlines ((Statement.keyframes block.name block.steps).lines ++ [] :: block.rule.lines) := by
  have hsteps : (String.join (block.steps.map (Step.render .compact))).toList =
      unlines (block.steps.map Step.line) := by
    rw [unlines, String.toList_join, List.flatMap_map, List.flatMap_map, List.flatMap_def,
      List.flatMap_def, List.map_congr_left fun step hs => toList_compactStep (h step hs)]
  have hopening : " \x7b\n".toList = " \x7b".toList ++ ['\n'] := rfl
  have hclosing : "\x7d\n\n".toList = ['\x7d', '\n', '\n'] := rfl
  rw [unlines] at hsteps
  unfold Block.render Statement.lines
  simp only [String.toList_append, hsteps, toList_rule, hopening, hclosing, unlines,
    List.flatMap_cons, List.flatMap_append, List.append_assoc, List.cons_append, List.nil_append]

theorem statements_cons :
    Sheet.statements (block :: sheet) =
      .keyframes block.name block.steps :: .rule block.rule :: sheet.statements := rfl

/-- An empty line stands behind each statement, and the last one has no end. -/
theorem lines_sheet (hne : sheet ≠ []) (h : ∀ block ∈ sheet, block.Legible) :
    ∃ pieces, (sheet.render .compact).toList = unlines pieces ∧
      pieces ++ [[]] = sheet.statements.flatMap fun statement => statement.lines ++ [[]] := by
  induction sheet with
  | nil => exact (hne rfl).elim
  | cons block sheet ih =>
    obtain ⟨hlegible, hrest⟩ := List.forall_mem_cons.mp h
    have hblock := toList_compactBlock hlegible.steps
    rw [statements_cons]
    -- Only between two blocks is there an empty line, which the last one lacks.
    by_cases hsheet : sheet = []
    · subst hsheet
      refine ⟨(Statement.keyframes block.name block.steps).lines ++ [] :: block.rule.lines, ?_, ?_⟩
      · rw [Sheet.render, List.map_singleton, String.intercalate_singleton, hblock]
      · simp [Sheet.statements, Statement.lines]
    · obtain ⟨next, others, rfl⟩ := List.exists_cons_of_ne_nil hsheet
      obtain ⟨pieces, htext, hpieces⟩ := ih hsheet hrest
      refine ⟨(Statement.keyframes block.name block.steps).lines ++
        [] :: (block.rule.lines ++ [] :: pieces), ?_, ?_⟩
      · have hend : "\n".toList = unlines [[]] := rfl
        unfold Sheet.render at htext ⊢
        rw [List.map_cons, List.map_cons, String.intercalate_cons_cons, ← List.map_cons,
          String.toList_append, String.toList_append, hblock, htext, hend, ← unlines_append,
          ← unlines_append]
        simp
      · rw [List.flatMap_cons, List.flatMap_cons, ← hpieces]
        simp [Statement.lines]

theorem nil_not_mem_lines (statement : Statement) : [] ∉ statement.lines := by
  cases statement <;> simp [Statement.lines, Step.line, Rule.lines]

theorem avoids_line (h : step.Legible) : Avoids ['\n'] step.line := by
  have hindent : Avoids ['\n'] "  ".toList := by decide
  have hopening : Avoids ['\n'] [' ', '\x7b'] := by decide
  have hclosing : Avoids ['\n'] " \x7d".toList := by decide
  have hentries : Avoids ['\n'] ((step.declarations.map Declaration.entry).flatMap
      fun entry => entry ++ [';']) := by
    intro c hc
    obtain ⟨entry, hentry, hc⟩ := List.mem_flatMap.mp hc
    obtain ⟨declaration, hd, rfl⟩ := List.mem_map.mp hentry
    have hlegible := h.declarations declaration hd
    have hmark : Avoids ['\n'] [';'] := by decide
    exact ((avoids_entry (by decide) (hlegible.property.mono (by simp))
      (hlegible.value.avoids.mono (by simp))).append hmark) c hc
  exact (hindent.append ((h.percentage.mono (by simp)).append (hopening.append hentries))).append
    hclosing

theorem avoids_statement {statement : Statement} (h : statement.Legible) {line : List Char}
    (hline : line ∈ statement.lines) : Avoids ['\n'] line := by
  cases statement with
  | keyframes name steps =>
    obtain ⟨hname, hsteps⟩ := h
    rw [Statement.lines, List.mem_cons, List.mem_append, List.mem_map, List.mem_singleton] at hline
    rcases hline with rfl | ⟨step, hs, rfl⟩ | rfl
    · have hopening : Avoids ['\n'] "@keyframes ".toList := by decide
      have hend : Avoids ['\n'] " \x7b".toList := by decide
      exact (hopening.append hname).append hend
    · exact avoids_line (hsteps step hs)
    · decide
  | rule rule =>
    exact avoids_rule h.selector (h.keyframes.mono (by simp)) (h.duration.1.avoids.mono (by simp))
      (h.easing.1.avoids.mono (by simp)) (h.delay.1.avoids.mono (by simp)) hline

/-- A sheet is read back from its text. -/
theorem Sheet.read?_render (h : ∀ block ∈ sheet, block.Legible) :
    Sheet.read? (sheet.render .compact) = some sheet.statements := by
  have hlegible := legible_statements h
  by_cases hne : sheet = []
  · subst hne
    rfl
  obtain ⟨pieces, htext, hpieces⟩ := lines_sheet hne h
  have hends : ∀ line ∈ pieces, '\n' ∉ line := by
    intro line hline
    have hmem : line ∈ sheet.statements.flatMap fun statement => statement.lines ++ [[]] :=
      hpieces ▸ List.mem_append_left _ hline
    obtain ⟨statement, hs, hline⟩ := List.mem_flatMap.mp hmem
    rcases List.mem_append.mp hline with hline | hline
    · exact (avoids_statement (hlegible statement hs) hline).not_mem (by simp)
    · rw [List.mem_singleton.mp hline]
      exact List.not_mem_nil
  have hlines : Text.lines (sheet.render .compact).toList =
      (sheet.statements.map Statement.lines).flatMap fun lines => lines ++ [[]] := by
    rw [htext, lines_unlines hends, hpieces, List.flatMap_map]
  have hmark : ∀ lines ∈ sheet.statements.map Statement.lines, [] ∉ lines := by
    intro lines hlines
    obtain ⟨statement, -, rfl⟩ := List.mem_map.mp hlines
    exact nil_not_mem_lines statement
  have hparagraphs : splitOn [] (Text.lines (sheet.render .compact).toList) =
      sheet.statements.map Statement.lines ++ [[]] := by
    rw [hlines, ← List.append_nil (List.flatMap _ _), splitOn_flatMap hmark]
    rfl
  have hfilter : (sheet.statements.map Statement.lines ++ [[]]).filter (· ≠ []) =
      sheet.statements.map Statement.lines := by
    rw [List.filter_append, List.filter_eq_self.mpr]
    · simp
    · intro lines hlines
      obtain ⟨statement, -, rfl⟩ := List.mem_map.mp hlines
      cases statement <;> simp [Statement.lines, Rule.lines]
  rw [Sheet.read?, hparagraphs, hfilter]
  exact mapM_read fun statement hs => readStatement?_lines (hlegible statement hs)

/-! What is under a name. -/

theorem filter_eq_singleton {α β : Type} [DecidableEq β] {f : α → β} {a : α} {l : List α}
    (hnodup : (l.map f).Nodup) (h : a ∈ l) : (l.filter fun b => f b = f a) = [a] := by
  induction l with
  | nil => exact (List.not_mem_nil h).elim
  | cons b l ih =>
    obtain ⟨hnot, hnodup⟩ := List.nodup_cons.mp hnodup
    rcases List.mem_cons.mp h with rfl | h
    · have hrest : (l.filter fun b => f b = f a) = [] := by
        rw [List.filter_eq_nil_iff]
        intro b hb he
        exact hnot (List.mem_map.mpr ⟨b, hb, by simpa using he⟩)
      simp [hrest]
    · have hne : f b ≠ f a := by
        intro he
        exact hnot (he ▸ List.mem_map_of_mem h)
      simp [hne, ih hnodup h]

theorem filter_statements (name : String)
    (h : ∀ block ∈ sheet, block.rule.selector = block.name) :
    sheet.statements.filter (fun statement => statement.name = name) =
      Sheet.statements (sheet.filter fun block => block.name = name) := by
  induction sheet with
  | nil => rfl
  | cons block sheet ih =>
    obtain ⟨hselector, hrest⟩ := List.forall_mem_cons.mp h
    by_cases hname : block.name = name <;>
      simp [statements_cons, hselector, hname, ih hrest]

/-- The text of a sheet has each of its blocks, if no two of them share a name. -/
theorem declares_render (h : ∀ block ∈ sheet, block.Legible)
    (hnodup : (sheet.map (·.name)).Nodup)
    (hselector : ∀ block ∈ sheet, block.rule.selector = block.name) (hmem : block ∈ sheet) :
    Declares (sheet.render .compact) block := by
  refine ⟨_, Sheet.read?_render h, ?_⟩
  rw [filter_statements _ hselector, filter_eq_singleton hnodup hmem]
  rfl

end AnimationKit.Css
