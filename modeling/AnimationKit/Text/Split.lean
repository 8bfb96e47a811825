/-!
Cutting text into pieces. Characters are cut at a character, and lines at a line.
-/
namespace AnimationKit.Text

/-- The pieces between separators; text without a separator is one piece. -/
def splitOn {α : Type} [DecidableEq α] (separator : α) : List α → List (List α)
  | [] => [[]]
  | c :: rest =>
    if c = separator then [] :: splitOn separator rest
    else
      match splitOn separator rest with
      | [] => [[c]]
      | piece :: pieces => (c :: piece) :: pieces

/-- What stands between an opening and a closing text. -/
def between? (opening closing chars : List Char) : Option (List Char) :=
  if opening.isPrefixOf chars then
    let rest := chars.drop opening.length
    if closing.isSuffixOf rest then some (rest.take (rest.length - closing.length)) else none
  else none

end AnimationKit.Text
