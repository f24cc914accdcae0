/-! # Joined text -/

namespace TypedErrors

/-- The parts with a separator between them. -/
def joinWith (sep : String) : List String → String
  | [] => ""
  | [s] => s
  | s :: ss => s ++ sep ++ joinWith sep ss

/-- The parts of a text between dots. -/
def dottedParts (s : String) : List String := (s.toList.splitOn '.').map String.ofList

def commas (ss : List String) : String := joinWith ", " ss

end TypedErrors
