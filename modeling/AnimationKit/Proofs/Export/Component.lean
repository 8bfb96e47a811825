import AnimationKit.Export.ReactComponent
import AnimationKit.Proofs.Text.Cutting

/-! The parts of a component are read back from its source text. -/
namespace AnimationKit

open Text

/-! Reading. -/

/-- Reads a parameter with its indentation. -/
def Parameter.read? (line : List Char) : Option Parameter := do
  let inside ← between? "  ".toList ",".toList line
  let (name, value) := cutFirst ':' inside
  let name := String.ofList name
  let value := value.drop 1
  match between? ['"'] ['"'] value with
  | some quoted => return .word name (.ofList quoted)
  | none =>
    match between? "\x7b start: ".toList " \x7d".toList value with
    | some ends =>
      let (start, stop) := cutFirst ',' ends
      return .span name (.ofList start) (.ofList (stop.drop " end: ".toList.length))
    | none => return .number name (.ofList value)

namespace ReactComponent

/-- Takes the quotes off, if there are any. -/
def readValue (chars : List Char) : List Char :=
  (between? ['"'] ['"'] chars).getD chars

/-- Reads a field behind its comma. -/
def readField (chars : List Char) : String × String :=
  let (property, value) := cutFirst ':' (chars.drop 1)
  (.ofList property, .ofList (readValue (value.drop 1)))

def readFrame? (line : List Char) : Option (String × List (String × String)) := do
  let inside ← between? "  \x7b offset: ".toList " \x7d,".toList line
  match splitOn ',' inside with
  | offset :: fields => return (.ofList offset, fields.map readField)
  | [] => none

def readName? (line : List Char) : Option String :=
  (between? "export function ".toList "(\x7b children \x7d) \x7b".toList line).map .ofList

def read? (text : String) : Option ReactComponent :=
  match lines text.toList with
  | _ :: _ :: _ :: rest => do
    let (parameterLines, rest) := cutFirst "\x7d;".toList rest
    let (frameLines, rest) := cutFirst "];".toList (rest.drop 2)
    let parameters ← parameterLines.mapM Parameter.read?
    let frames ← frameLines.mapM readFrame?
    let name ← (rest.drop 1).head?.bind readName?
    return ⟨name, parameters, frames⟩
  | _ => none

end ReactComponent

/-! Parameters. -/

namespace Parameter

variable {parameter : Parameter}

/-- No part holds the marks around it. -/
def Plain : Parameter → Prop
  | number name value =>
    Avoids [':', '\n'] name.toList ∧ Avoids ['"', '\x7b', '\n'] value.toList
  | word name value => Avoids [':', '\n'] name.toList ∧ Avoids ['\n'] value.toList
  | span name start stop =>
    Avoids [':', '\n'] name.toList ∧ Avoids [',', '\n'] start.toList ∧ Avoids ['\n'] stop.toList

def line (parameter : Parameter) : List Char := "  ".toList ++ parameter.render.toList

theorem read?_line (h : parameter.Plain) : read? parameter.line = some parameter := by
  cases parameter with
  | number name value =>
    obtain ⟨hname, hvalue⟩ := h
    have hline : line (.number name value) =
        "  ".toList ++ (name.toList ++ ':' :: ' ' :: value.toList) ++ ",".toList := by
      simp [line, render]
    have hcolon : ':' ∉ name.toList := hname.not_mem (by simp)
    have hquote : '"' ∉ value.toList := hvalue.not_mem (by simp)
    have hbrace : '\x7b' ∉ value.toList := hvalue.not_mem (by simp)
    have hword : between? ['"'] ['"'] value.toList = none := between?_of_not_mem rfl hquote
    have hspan : between? "\x7b start: ".toList " \x7d".toList value.toList = none :=
      between?_of_not_mem rfl hbrace
    rw [hline, read?, between?_append]
    simp only [Option.bind_eq_bind, Option.bind_some, cutFirst_append hcolon, List.drop_one,
      List.tail_cons, hword, hspan, String.ofList_toList]
    rfl
  | word name value =>
    obtain ⟨hname, -⟩ := h
    have hline : line (.word name value) = "  ".toList ++ (name.toList ++ ':' :: ' ' ::
        (['"'] ++ value.toList ++ ['"'])) ++ ",".toList := by
      simp [line, render]
    have hcolon : ':' ∉ name.toList := hname.not_mem (by simp)
    rw [hline, read?, between?_append]
    simp only [Option.bind_eq_bind, Option.bind_some, cutFirst_append hcolon, List.drop_one,
      List.tail_cons, between?_append, String.ofList_toList]
    rfl
  | span name start stop =>
    obtain ⟨hname, hstart, -⟩ := h
    have hline : line (.span name start stop) = "  ".toList ++ (name.toList ++ ':' :: ' ' ::
        ("\x7b start: ".toList ++ (start.toList ++ ',' :: (" end: ".toList ++ stop.toList)) ++
          " \x7d".toList)) ++ ",".toList := by
      simp [line, render]
    have hcolon : ':' ∉ name.toList := hname.not_mem (by simp)
    have hcomma : ',' ∉ start.toList := hstart.not_mem (by simp)
    have hquote : ∀ chars, between? ['"'] ['"'] ("\x7b start: ".toList ++ chars) =
        none := by
      intro chars
      apply between?_of_not_prefix
      simp
    rw [hline, read?, between?_append]
    simp only [Option.bind_eq_bind, Option.bind_some, cutFirst_append hcolon, List.drop_one,
      List.tail_cons]
    rw [List.append_assoc, hquote, ← List.append_assoc, between?_append]
    simp only [cutFirst_append hcomma, List.drop_left, String.ofList_toList]
    rfl

def texts : Parameter → List String
  | number name value | word name value => [name, value]
  | span name start stop => [name, start, stop]

/-- What stands around the texts. -/
def punctuation : List String :=
  ["  ", ": ", ": \"", ": \x7b start: ", ", end: ", ",", "\",", " \x7d,"]

theorem avoids_line {marks : List Char} (hmarks : ∀ mark ∈ punctuation, Avoids marks mark.toList)
    (h : ∀ text ∈ parameter.texts, Avoids marks text.toList) : Avoids marks parameter.line := by
  simp only [punctuation, List.forall_mem_cons] at hmarks
  cases parameter <;> simp only [texts, List.forall_mem_cons] at h <;>
    simp only [line, render, String.toList_append, avoids_append, hmarks, h, and_self]

theorem Plain.avoids_texts (h : parameter.Plain) :
    ∀ text ∈ parameter.texts, Avoids ['\n'] text.toList := by
  cases parameter with
  | number name value =>
    obtain ⟨hname, hvalue⟩ := h
    simp [texts, hname.mono, hvalue.mono]
  | word name value =>
    obtain ⟨hname, hvalue⟩ := h
    simp [texts, hname.mono, hvalue]
  | span name start stop =>
    obtain ⟨hname, hstart, hstop⟩ := h
    simp [texts, hname.mono, hstart.mono, hstop]

end Parameter

/-! Keyframes. -/

namespace ReactComponent

variable {component : ReactComponent} {field : String × String}
  {fields : List (String × String)} {frame : String × List (String × String)}

structure PlainField (field : String × String) : Prop where
  property : Avoids [':', ',', '\n'] field.1.toList
  value : Avoids ['"', ',', '\n'] field.2.toList

structure PlainFrame (frame : String × List (String × String)) : Prop where
  offset : Avoids [',', '\n'] frame.1.toList
  fields : ∀ field ∈ frame.2, PlainField field

def fieldChars (field : String × String) : List Char :=
  field.1.toList ++ ':' :: ' ' :: (valueText field.2).toList

theorem readValue_valueText {value : String} (h : '"' ∉ value.toList) :
    readValue (valueText value).toList = value.toList := by
  unfold valueText
  split
  · rw [readValue, between?_of_not_mem rfl h, Option.getD_none]
  · have hquoted : ("\"" ++ value ++ "\"").toList = ['"'] ++ value.toList ++ ['"'] := by simp
    rw [hquoted, readValue, between?_append, Option.getD_some]

theorem avoids_valueText {value : String} {marks : List Char} (hquote : '"' ∉ marks)
    (h : Avoids marks value.toList) : Avoids marks (valueText value).toList := by
  have hmark : Avoids marks "\"".toList := by
    intro c hc
    obtain rfl : c = '"' := by simpa using hc
    exact hquote
  unfold valueText
  split
  · exact h
  · simp only [String.toList_append]
    exact (hmark.append h).append hmark

theorem readField_fieldChars (h : PlainField field) :
    readField (' ' :: fieldChars field) = field := by
  have hcolon : ':' ∉ field.1.toList := h.property.not_mem (by simp)
  have hquote : '"' ∉ field.2.toList := h.value.not_mem (by simp)
  simp only [readField, fieldChars, List.drop_one, List.tail_cons, cutFirst_append hcolon,
    readValue_valueText hquote, String.ofList_toList]

theorem avoids_fieldChars {marks : List Char} (hmarks : Avoids marks [':', ' ', '"'])
    (hproperty : Avoids marks field.1.toList) (hvalue : Avoids marks field.2.toList) :
    Avoids marks (fieldChars field) := by
  have hcolon : Avoids marks [':', ' '] := fun c hc => hmarks c (List.mem_append_left ['"'] hc)
  have hquote : '"' ∉ marks := hmarks '"' (by simp)
  exact hproperty.append (hcolon.append (avoids_valueText hquote hvalue))

theorem PlainField.avoids (h : PlainField field) : Avoids [',', '\n'] (fieldChars field) :=
  avoids_fieldChars (by decide) (h.property.mono (by simp)) (h.value.mono (by simp))

/-- The fields of a frame, each behind a comma. -/
def fieldsChars (fields : List (String × String)) : List Char :=
  fields.flatMap fun field => ',' :: ' ' :: fieldChars field

theorem splitOn_fieldsChars {offset : List Char} (hoffset : ',' ∉ offset)
    (h : ∀ field ∈ fields, PlainField field) :
    splitOn ',' (offset ++ fieldsChars fields) =
      offset :: fields.map fun field => ' ' :: fieldChars field := by
  induction fields generalizing offset with
  | nil =>
    rw [fieldsChars, List.flatMap_nil, List.append_nil, splitOn_of_not_mem hoffset]
    rfl
  | cons field fields ih =>
    have hfield : ',' ∉ ' ' :: fieldChars field := by
      have hchars : ',' ∉ fieldChars field :=
        (h field List.mem_cons_self).avoids.not_mem (by simp)
      simpa using hchars
    rw [fieldsChars, List.flatMap_cons, List.cons_append, splitOn_append hoffset]
    congr 1
    exact ih hfield fun f hf => h f (List.mem_cons_of_mem _ hf)

/-- A frame without the end of its line. -/
def frameLine (frame : String × List (String × String)) : List Char :=
  "  \x7b offset: ".toList ++ (frame.1.toList ++ fieldsChars frame.2) ++ " \x7d,".toList

theorem toList_fields (fields : List (String × String)) :
    ((fields.map fun (property, value) => property ++ ": " ++ valueText value).flatMap
      fun text => ", ".toList ++ text.toList) = fieldsChars fields := by
  have hcomma : ", ".toList = [',', ' '] := by simp
  have hcolon : ": ".toList = [':', ' '] := by simp
  rw [List.flatMap_map, fieldsChars]
  congr 1
  funext field
  simp only [String.toList_append, hcomma, hcolon, fieldChars, List.append_assoc, List.cons_append,
    List.nil_append]

theorem head?_frameLine : (frameLine frame).head? = some ' ' := by
  unfold frameLine
  simp only [List.append_assoc, String.reduceToList]
  rfl

theorem toList_frameText : (frameText frame).toList = frameLine frame ++ ['\n'] := by
  unfold frameText frameLine
  simp only [String.toList_append, toList_intercalate_cons, toList_fields]
  simp

theorem readFrame?_frameLine (h : PlainFrame frame) :
    readFrame? (frameLine frame) = some frame := by
  have hoffset : ',' ∉ frame.1.toList := h.offset.not_mem (by simp)
  have hfields : (frame.2.map fun field => ' ' :: fieldChars field).map readField = frame.2 := by
    rw [List.map_map, List.map_congr_left (g := id), List.map_id]
    exact fun field hf => readField_fieldChars (h.fields field hf)
  have hinside : between? "  \x7b offset: ".toList " \x7d,".toList (frameLine frame) =
      some (frame.1.toList ++ fieldsChars frame.2) := between?_append
  unfold readFrame?
  simp only [hinside, Option.bind_eq_bind, Option.bind_some, splitOn_fieldsChars hoffset h.fields,
    hfields, String.ofList_toList]
  rfl

/-- What stands around the texts of a frame. -/
def framePunctuation : List String := ["  \x7b offset: ", ", ", ": \"", " \x7d,"]

theorem avoids_frameLine {marks : List Char}
    (hmarks : ∀ mark ∈ framePunctuation, Avoids marks mark.toList)
    (hoffset : Avoids marks frame.1.toList)
    (hfields : ∀ field ∈ frame.2, Avoids marks field.1.toList ∧ Avoids marks field.2.toList) :
    Avoids marks (frameLine frame) := by
  simp only [framePunctuation, List.forall_mem_cons] at hmarks
  obtain ⟨hopening, hcomma, hcolon, hend, -⟩ := hmarks
  have hchars : Avoids marks (fieldsChars frame.2) := by
    intro c hc
    obtain ⟨field, hfield, hc⟩ := List.mem_flatMap.mp hc
    obtain ⟨hproperty, hvalue⟩ := hfields field hfield
    rw [List.mem_cons, List.mem_cons, ← or_assoc] at hc
    rcases hc with hc | hc
    · exact hcomma c (by simpa using hc)
    · refine avoids_fieldChars (fun c hc => hcolon c ?_) hproperty hvalue c hc
      simpa using hc
  exact (hopening.append (hoffset.append hchars)).append hend

theorem PlainFrame.avoids (h : PlainFrame frame) : Avoids ['\n'] (frameLine frame) :=
  avoids_frameLine (by decide) (h.offset.mono (by simp)) fun field hfield =>
    ⟨(h.fields field hfield).property.mono (by simp), (h.fields field hfield).value.mono (by simp)⟩

/-! The whole text. -/

structure Plain (component : ReactComponent) : Prop where
  name : Avoids ['\n'] component.name.toList
  parameters : ∀ parameter ∈ component.parameters, parameter.Plain
  frames : ∀ frame ∈ component.frames, PlainFrame frame

def nameLine (component : ReactComponent) : List Char :=
  "export function ".toList ++ component.name.toList ++ "(\x7b children \x7d) \x7b".toList

/-- The lines down to the last keyframe. -/
def upToFrames (component : ReactComponent) : List (List Char) :=
  ["import \x7b useEffect, useRef \x7d from \"react\";".toList, [],
    "const animation = \x7b".toList] ++ component.parameters.map Parameter.line ++
  ["\x7d;".toList, [], "const keyframes = [".toList] ++ component.frames.map frameLine

/-- The lines down to the one with the name. -/
def lines (component : ReactComponent) : List (List Char) :=
  component.upToFrames ++ ["];".toList, [], component.nameLine]

theorem toList_parameters (parameters : List Parameter) :
    (String.join (parameters.map fun p => "  " ++ p.render ++ "\n")).toList =
      unlines (parameters.map Parameter.line) := by
  simp [String.toList_join, unlines, List.flatMap_map, Parameter.line]

theorem toList_frames (frames : List (String × List (String × String))) :
    (String.join (frames.map frameText)).toList = unlines (frames.map frameLine) := by
  simp [String.toList_join, unlines, List.flatMap_map, toList_frameText]

theorem toList_render : component.render.toList = unlines component.lines ++
    (body ++ "export default " ++ component.name ++ ";\n").toList := by
  have hopening : "import \x7b useEffect, useRef \x7d from \"react\";\n\n".toList ++
      "const animation = \x7b\n".toList =
        unlines ["import \x7b useEffect, useRef \x7d from \"react\";".toList, [],
          "const animation = \x7b".toList] := by
    simp [unlines]
  have hmiddle : "\x7d;\n\n".toList ++ "const keyframes = [\n".toList =
      unlines ["\x7d;".toList, [], "const keyframes = [".toList] := by
    simp [unlines]
  have hname : "];\n\n".toList ++ ("export function ".toList ++ (component.name.toList ++
      "(\x7b children \x7d) \x7b\n".toList)) = unlines ["];".toList, [], component.nameLine] := by
    unfold nameLine
    simp [unlines]
  unfold render lines upToFrames
  rw [unlines_append, unlines_append, unlines_append, unlines_append, ← hopening, ← hmiddle,
    ← hname]
  simp only [String.toList_append, toList_parameters, toList_frames, List.append_assoc]

theorem toList_body : body.toList = unlines (bodyLines.map String.toList) := by
  have hend : "\n".toList = ['\n'] := rfl
  simp only [body, String.toList_join, unlines, List.flatMap_map, String.toList_append, hend]

theorem readName?_nameLine : readName? component.nameLine = some component.name := by
  have hname : between? "export function ".toList "(\x7b children \x7d) \x7b".toList
      component.nameLine = some component.name.toList := between?_append
  simp only [readName?, hname, Option.map_some, String.ofList_toList]

/-- Lines that are indented do not hold the line that ends them. -/
theorem not_mem_of_indented {pieces : List (List Char)} {stop : List Char}
    (h : ∀ line ∈ pieces, line.head? = some ' ') (hstop : stop.head? ≠ some ' ') :
    stop ∉ pieces := fun hmem => hstop (h stop hmem)

theorem avoids_lines (h : component.Plain) : ∀ line ∈ component.lines, '\n' ∉ line := by
  have hname : Avoids ['\n'] component.nameLine := by
    have hopening : Avoids ['\n'] "export function ".toList := by decide
    have hend : Avoids ['\n'] "(\x7b children \x7d) \x7b".toList := by decide
    exact (hopening.append h.name).append hend
  have hparameters : ∀ line ∈ component.parameters.map Parameter.line, '\n' ∉ line := by
    intro line hline
    obtain ⟨parameter, hmem, rfl⟩ := List.mem_map.mp hline
    exact (Parameter.avoids_line (by decide) (h.parameters parameter hmem).avoids_texts).not_mem
      (by simp)
  have hframes : ∀ line ∈ component.frames.map frameLine, '\n' ∉ line := by
    intro line hline
    obtain ⟨frame, hmem, rfl⟩ := List.mem_map.mp hline
    exact (h.frames frame hmem).avoids.not_mem (by simp)
  intro line hline
  simp only [lines, upToFrames, List.mem_append, List.mem_cons, List.not_mem_nil, or_false] at hline
  rcases hline with (((hline | hline) | hline) | hline) | hline
  · rcases hline with rfl | rfl | rfl <;> decide
  · exact hparameters line hline
  · rcases hline with rfl | rfl | rfl <;> decide
  · exact hframes line hline
  · rcases hline with rfl | rfl | rfl
    · decide
    · decide
    · exact hname.not_mem (by simp)

theorem not_mem_parameters {stop : List Char} (hstop : stop.head? ≠ some ' ') :
    stop ∉ component.parameters.map Parameter.line := by
  refine not_mem_of_indented (fun line hline => ?_) hstop
  obtain ⟨parameter, -, rfl⟩ := List.mem_map.mp hline
  simp [Parameter.line]

theorem not_mem_frames {stop : List Char} (hstop : stop.head? ≠ some ' ') :
    stop ∉ component.frames.map frameLine := by
  refine not_mem_of_indented (fun line hline => ?_) hstop
  obtain ⟨frame, -, rfl⟩ := List.mem_map.mp hline
  exact head?_frameLine

/-- The parts of a component are read back from its source text. -/
theorem read?_render (h : component.Plain) : read? component.render = some component := by
  have hparameters : "\x7d;".toList ∉ component.parameters.map Parameter.line :=
    not_mem_parameters (by simp)
  have hframes : "];".toList ∉ component.frames.map frameLine := not_mem_frames (by simp)
  have hreadParameters : (component.parameters.map Parameter.line).mapM Parameter.read? =
      some component.parameters :=
    mapM_read fun parameter hmem => Parameter.read?_line (h.parameters parameter hmem)
  have hreadFrames : (component.frames.map frameLine).mapM readFrame? = some component.frames :=
    mapM_read fun frame hmem => readFrame?_frameLine (h.frames frame hmem)
  unfold read?
  rw [toList_render, lines_unlines_append (avoids_lines h)]
  simp only [lines, upToFrames, List.cons_append, List.append_assoc, List.nil_append,
    cutFirst_append hparameters, List.drop_succ_cons, List.drop_zero, cutFirst_append hframes,
    hreadParameters, hreadFrames, List.head?_cons, Option.bind_eq_bind, Option.bind_some,
    readName?_nameLine]
  rfl

/-! The options of the effect. -/

/-- The line that plays the keyframes on the element, with options to follow. -/
def animateLine : String := "    const running = element.animate(keyframes, \x7b"

def readOption? (line : List Char) : Option (String × String) := do
  let inside ← between? "      ".toList [','] line
  let (name, value) := cutFirst ':' inside
  return (.ofList name, .ofList (value.drop 1))

/-- The options that a component plays its keyframes with, if it plays them. -/
def options? (text : String) : Option (List (String × String)) :=
  let (_, behind) := cutFirst "];".toList (Text.lines text.toList)
  if animateLine.toList ∈ behind then
    let (_, behind) := cutFirst animateLine.toList behind
    (cutFirst "    \x7d);".toList behind).1.mapM readOption?
  else none

def optionLines : List String :=
  ["      duration: animation.duration * 1000,", "      delay: animation.delay * 1000,",
   "      easing: animation.easing,", "      fill: \"both\","]

theorem exists_options : ∃ before behind,
    bodyLines = before ++ animateLine :: (optionLines ++ "    \x7d);" :: behind) ∧
      animateLine ∉ before := by
  refine ⟨bodyLines.take 7, bodyLines.drop 13, rfl, ?_⟩
  decide

theorem toList_not_mem {text : String} {texts : List String} (h : text ∉ texts) :
    text.toList ∉ texts.map String.toList := by
  intro hmem
  obtain ⟨other, hother, heq⟩ := List.mem_map.mp hmem
  exact h (String.toList_inj.mp heq ▸ hother)

theorem end_not_mem_upToFrames : "];".toList ∉ component.upToFrames := by
  have hparameters : "];".toList ∉ component.parameters.map Parameter.line :=
    not_mem_parameters (by simp)
  have hframes : "];".toList ∉ component.frames.map frameLine := not_mem_frames (by simp)
  simp only [upToFrames, List.mem_append, hparameters, hframes, or_false, not_or]
  constructor <;> decide

theorem lines_render (h : component.Plain) : ∃ behind,
    Text.lines component.render.toList = component.upToFrames ++ "];".toList ::
      ([] :: component.nameLine :: (bodyLines.map String.toList ++ behind)) := by
  have hbody : ∀ line ∈ bodyLines.map String.toList, '\n' ∉ line := by decide
  refine ⟨Text.lines ("export default ".toList ++ (component.name.toList ++ ";\n".toList)), ?_⟩
  rw [toList_render, lines_unlines_append (avoids_lines h), String.toList_append,
    String.toList_append, String.toList_append, toList_body, List.append_assoc, List.append_assoc,
    lines_unlines_append hbody, lines, List.append_assoc]
  rfl

/-- The options are read back from the source text of a component. -/
theorem options?_render (h : component.Plain) :
    options? component.render = some [("duration", "animation.duration * 1000"),
      ("delay", "animation.delay * 1000"), ("easing", "animation.easing"),
      ("fill", "\"both\"")] := by
  obtain ⟨behind, hlines⟩ := lines_render h
  obtain ⟨before, behind', hbody, hbefore⟩ := exists_options
  have hanimate : animateLine.toList ∉ [] :: component.nameLine :: before.map String.toList := by
    have hhead : animateLine.toList.head? = some ' ' := rfl
    have hempty : animateLine.toList ≠ [] := by
      intro heq
      rw [heq] at hhead
      cases hhead
    have hname : component.nameLine.head? = some 'e' := by
      unfold nameLine
      simp
    have hne : animateLine.toList ≠ component.nameLine := by
      intro heq
      rw [heq, hname] at hhead
      cases hhead
    simp only [List.mem_cons, hempty, hne, toList_not_mem hbefore, or_self, not_false_eq_true]
  have hclosing : "    \x7d);".toList ∉ optionLines.map String.toList := toList_not_mem (by decide)
  have hread : (optionLines.map String.toList).mapM readOption? = some
      [("duration", "animation.duration * 1000"), ("delay", "animation.delay * 1000"),
        ("easing", "animation.easing"), ("fill", "\"both\"")] := by
    decide +kernel
  have hbehind : [] :: component.nameLine :: (bodyLines.map String.toList ++ behind) =
      ([] :: component.nameLine :: before.map String.toList) ++ animateLine.toList ::
        (optionLines.map String.toList ++ "    \x7d);".toList ::
          (behind'.map String.toList ++ behind)) := by
    simp only [hbody, List.map_append, List.map_cons, List.append_assoc, List.cons_append]
  have hmem : animateLine.toList ∈ [] :: component.nameLine ::
      (bodyLines.map String.toList ++ behind) := by
    rw [hbehind]
    exact List.mem_append_right _ List.mem_cons_self
  simp only [options?, hlines, cutFirst_append end_not_mem_upToFrames, if_pos hmem]
  simp only [hbehind, cutFirst_append hanimate, cutFirst_append hclosing, hread]

end ReactComponent

/-! The text of an expression. -/

def Parameter.textOf? (wanted : String) : Parameter → Option String
  | word name value => if name = wanted then some value else none
  | number _ _ | span _ _ _ => none

/-- The text that an expression comes to: it is between quotes, or a parameter has it. -/
def ReactComponent.textOf? (component : ReactComponent) (expression : String) : Option String :=
  match between? ['"'] ['"'] expression.toList with
  | some text => some (.ofList text)
  | none => do
    let wanted ← between? "animation.".toList [] expression.toList
    component.parameters.findSome? (Parameter.textOf? (.ofList wanted))

end AnimationKit
