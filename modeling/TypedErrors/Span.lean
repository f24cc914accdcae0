/-! # Spans

A span is a stretch of a source file, lines and columns counted from one. Its end, just past the last
character, may be unknown. -/

namespace TypedErrors

structure Span where
  file : String
  line : Nat
  column : Nat
  endLine : Option Nat := none
  endColumn : Option Nat := none
deriving DecidableEq, Inhabited

namespace Span

/-- From the start of the first span to the end of the second. A span without an end ends where it
starts. -/
def join (a : Span) : Option Span → Span
  | none => a
  | some b => { a with
      endLine := some (b.endLine.getD b.line), endColumn := some (b.endColumn.getD b.column) }

/-- The place of the start, `file:line:column`. -/
def text (s : Span) : String := s!"{s.file}:{s.line}:{s.column}"

end Span
end TypedErrors
