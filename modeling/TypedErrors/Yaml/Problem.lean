import TypedErrors.Number.Numeral
import TypedErrors.Yaml.Cursor

/-! # What is wrong with a document

A problem is reported with its place, at times with what was being read and where that began. Each place
shows the line around it. -/

namespace TypedErrors
namespace Yaml

structure Problem where
  context? : Option (String × Mark) := none
  message : Text
  mark : Mark
deriving DecidableEq, Inhabited

/-- A scalar whose form is right and whose value does not exist. -/
inductive ValueFault where
  | numeral (e : NumeralError)
  /-- A number without digits. -/
  | noDigits
  /-- A date or a time with a part out of its range. -/
  | date (message : String)
  /-- An escape beyond the last code point. -/
  | codePoint
  /-- An escape beyond the range of integers of the machine. -/
  | machineInteger
  /-- A collection in a key. -/
  | nestedKey (isMapping : Bool)
deriving DecidableEq

namespace ValueFault

def message : ValueFault → Text
  | .numeral e => e.message
  | .noDigits => "string index out of range"
  | .date m => Text.ofString m
  | .codePoint => "chr() arg not in range(0x110000)"
  | .machineInteger => "Python int too large to convert to C int"
  | .nestedKey isMapping =>
    if isMapping then "unhashable type: 'CommentedMap'" else "unhashable type: 'CommentedSeq'"

end ValueFault

inductive Error where
  /-- A character that no document may hold, and how many stand before it. -/
  | character (code position : Nat)
  | problem (p : Problem)
  | value (f : ValueFault)
deriving DecidableEq

/-- How many characters of a line are shown on either side of a place. -/
def snippetReach : Nat := 37

/-- Characters up to the end of a line, cut with an ellipsis where they are too many. -/
def snippetSide (cs : List Char) : List Char × Bool :=
  let line := (cs.takeWhile fun c => !isLineEnd c).take snippetReach
  if line.length = snippetReach then (line.take (snippetReach - 5), true) else (line, false)

/-- A place with the line around it. -/
def Mark.text (document : List Char) (m : Mark) : String :=
  let (before, cutBefore) := snippetSide (document.take m.index).reverse
  let (after, cutAfter) := snippetSide (document.drop m.index)
  let head := if cutBefore then " ... " else ""
  let tail := if cutAfter then " ... " else ""
  let column := 4 + before.length + head.length
  s!"  in \"<unicode string>\", line {m.line + 1}, column {m.column + 1}:\n    " ++ head ++
    String.ofList (before.reverse ++ after) ++ tail ++ "\n" ++
    String.ofList (List.replicate column ' ') ++ s!"^ (line: {m.line + 1})"

/-- What was being read, what is wrong and where. The first place is left out where it is the second. -/
def Problem.text (document : List Char) (p : Problem) : Text :=
  let context := match p.context? with
    | none => ""
    | some (c, m) =>
      if m.line = p.mark.line ∧ m.column = p.mark.column then c ++ "\n"
      else c ++ "\n" ++ m.text document ++ "\n"
  Text.ofString context ++ p.message ++ Text.ofString ("\n" ++ p.mark.text document)

end Yaml
end TypedErrors
