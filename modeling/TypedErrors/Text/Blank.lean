import TypedErrors.Text.CodePoint

/-! # Blank characters and line ends

White space in the wide sense: the separators of Unicode and the ASCII controls that end or part
lines and records. -/

namespace TypedErrors

/-- Ranges of blank characters. -/
def blankRanges : List (Nat × Nat) := [
  (0x9, 0xd), (0x1c, 0x20), (0x85, 0x85), (0xa0, 0xa0), (0x1680, 0x1680), (0x2000, 0x200a),
  (0x2028, 0x2029), (0x202f, 0x202f), (0x205f, 0x205f), (0x3000, 0x3000)]

def isBlank (c : Char) : Bool := inRanges blankRanges c.toNat

/-- Drops the blanks at both ends. -/
def stripBlanks (cs : List Char) : List Char :=
  ((cs.dropWhile isBlank).reverse.dropWhile isBlank).reverse

/-- A surrogate is not blank. -/
def CodePoint.isBlank (p : CodePoint) : Bool := p.char?.any TypedErrors.isBlank

/-- The text without the blanks at its ends. -/
def Text.strip (t : Text) : Text :=
  ((t.dropWhile CodePoint.isBlank).reverse.dropWhile CodePoint.isBlank).reverse

/-- Every line end becomes a line feed: a carriage return, and the line feed after it, if any. -/
def unifyLineEnds : List Char → List Char
  | '\r' :: '\n' :: cs => '\n' :: unifyLineEnds cs
  | '\r' :: cs => '\n' :: unifyLineEnds cs
  | c :: cs => c :: unifyLineEnds cs
  | [] => []

end TypedErrors
