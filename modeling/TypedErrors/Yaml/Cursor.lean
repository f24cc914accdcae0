/-! # Places in a document

A cursor is a place together with the characters from there on. Past the last character it sees NUL, which
no document holds. -/

namespace TypedErrors
namespace Yaml

/-- A place, everything counted from zero. -/
structure Mark where
  index : Nat := 0
  line : Nat := 0
  column : Nat := 0
deriving DecidableEq, Inhabited

/-- Line ends of the older version of the format among them. -/
def isLineEnd (c : Char) : Bool :=
  c == '\n' || c == '\r' || c == '\x85' || c == '\u2028' || c == '\u2029'

/-- What ends a line for good, the end of the document included. -/
def isEnd (c : Char) : Bool := c == '\n' || c == '\x00' || c == '\r' || c == '\x85'

/-- What parts an indicator from what follows. -/
def isGap (c : Char) : Bool := isEnd c || c == ' ' || c == '\t'

structure Cursor where
  rest : List Char
  mark : Mark := {}
deriving Inhabited

namespace Mark

/-- The place after a character. A carriage return in front of a line feed starts no line. -/
def step (m : Mark) (c : Char) (after : List Char) : Mark :=
  if c = '\n' ∨ (c = '\r' ∧ after.head? ≠ some '\n') then ⟨m.index + 1, m.line + 1, 0⟩
  else if c = '\ufeff' then { m with index := m.index + 1 }
  else ⟨m.index + 1, m.line, m.column + 1⟩

end Mark

namespace Cursor

/-- The character at a distance. -/
def peek (c : Cursor) (k : Nat := 0) : Char := c.rest[k]?.getD '\x00'

def next (c : Cursor) : Cursor :=
  match c.rest with
  | [] => c
  | x :: xs => ⟨xs, c.mark.step x xs⟩

def forward (c : Cursor) : Nat → Cursor
  | 0 => c
  | n + 1 => c.next.forward n

/-- The longest front whose characters satisfy a predicate. -/
def splitWhile (p : Char → Bool) (m : Mark) (front : List Char) : List Char → List Char × Cursor
  | [] => (front.reverse, ⟨[], m⟩)
  | x :: xs =>
    if p x then splitWhile p (m.step x xs) (x :: front) xs else (front.reverse, ⟨x :: xs, m⟩)

/-- Takes characters as long as they satisfy a predicate. -/
def takeWhile (c : Cursor) (p : Char → Bool) : List Char × Cursor := splitWhile p c.mark [] c.rest

def skipWhile (c : Cursor) (p : Char → Bool) : Cursor := (c.takeWhile p).2

/-- Takes one line end, by the character it stands for. -/
def lineEnd? (c : Cursor) : Option (Char × Cursor) :=
  match c.rest with
  | '\r' :: '\n' :: _ => some ('\n', c.forward 2)
  | x :: _ =>
    if x = '\n' ∨ x = '\r' ∨ x = '\x85' then some ('\n', c.next)
    else if isLineEnd x then some (x, c.next)
    else none
  | [] => none

/-- Three dots or three hyphens in a row, with a gap after them. -/
def isBoundary (c : Cursor) : Bool :=
  let three (x : Char) : Bool := c.peek == x && c.peek 1 == x && c.peek 2 == x
  (three '-' || three '.') && isGap (c.peek 3)

/-- What a mark of the document boundary looks like at the start of a line. -/
def isBoundaryLine (c : Cursor) : Bool := c.mark.column == 0 && c.isBoundary

end Cursor
end Yaml
end TypedErrors
