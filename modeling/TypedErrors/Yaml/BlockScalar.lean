import TypedErrors.Yaml.Token

/-! # Block scalars

After the indicator `|` or `>` the lines that are indented far enough are the scalar, literally or folded.
The header may give the indentation and say what becomes of the line ends after the last line. -/

namespace TypedErrors
namespace Yaml
namespace BlockScalar

/-- What becomes of the line ends at the end: one stays, none stays, all stay. -/
inductive Chomping where
  | clip
  | strip
  | keep
deriving DecidableEq

structure Header where
  chomping : Chomping := .clip
  /-- The indentation beyond that of the block around. -/
  increment? : Option Nat := none

def fault (start : Mark) (message : String) (c : Cursor) : Error :=
  .problem
    { context? := some ("while scanning a block scalar", start)
      message := Text.ofString message, mark := c.mark }

def chomping? (c : Cursor) : Option (Chomping × Cursor) :=
  if c.peek = '+' then some (.keep, c.next)
  else if c.peek = '-' then some (.strip, c.next)
  else none

def increment? (start : Mark) (c : Cursor) : Except Error (Option (Nat × Cursor)) :=
  if c.peek = '0' then
    .error (fault start "expected indentation indicator in the range 1-9, but found 0" c)
  else if c.peek.isDigit then .ok (some (c.peek.toNat - 0x30, c.next))
  else .ok none

/-- The two indicators, in either order. -/
def indicators (start : Mark) (c : Cursor) : Except Error (Header × Cursor) := do
  match chomping? c with
  | some (chomping, c) =>
    match ← increment? start c with
    | some (n, c) => return (⟨chomping, some n⟩, c)
    | none => return (⟨chomping, none⟩, c)
  | none =>
    match ← increment? start c with
    | none => return ({}, c)
    | some (n, c) =>
      match chomping? c with
      | some (chomping, c) => return (⟨chomping, some n⟩, c)
      | none => return (⟨.clip, some n⟩, c)

/-- The line of the indicators: a comment may follow them. -/
def header (start : Mark) (c : Cursor) : Except Error (Header × Cursor) := do
  let (h, c) ← indicators start c
  if !(c.rest.isEmpty || c.peek == ' ' || isLineEnd c.peek) then
    throw (fault start ("expected chomping or indentation indicators, but found " ++ shownChar c.peek) c)
  let c := c.skipWhile (· == ' ')
  let c := if c.peek = '#' then c.skipWhile (!isEnd ·) else c
  if !isEnd c.peek then
    throw (fault start ("expected a comment or a line break, but found " ++ shownChar c.peek) c)
  return (h, (c.lineEnd?.map (·.2)).getD c)

/-- Line ends with what follows them. -/
structure Breaks where
  text : List Char
  cursor : Cursor
  /-- The place after the last line end. -/
  stop : Mark

/-- Empty lines in front of the first line, and the widest run of spaces among them and before it. -/
def firstBreaks : (fuel : Nat) → Cursor → List Char → (widest : Nat) → Mark → Breaks × Nat
  | 0, c, text, widest, stop => (⟨text.reverse, c, stop⟩, widest)
  | fuel + 1, c, text, widest, stop =>
    if c.peek = ' ' then
      let c := c.next
      firstBreaks fuel c text (max widest c.mark.column) stop
    else match c.lineEnd? with
      | some (b, c) => firstBreaks fuel c (b :: text) widest c.mark
      | none => (⟨text.reverse, c, stop⟩, widest)

/-- Skips the indentation, as far as there is one. -/
def dedent (indent : Nat) : (fuel : Nat) → Cursor → Cursor
  | 0, c => c
  | fuel + 1, c =>
    if c.mark.column < indent ∧ c.peek = ' ' then dedent indent fuel c.next else c

/-- Empty lines, and the indentation of the line after them. -/
def breaks (indent : Nat) : (fuel : Nat) → Cursor → List Char → Mark → Breaks
  | 0, c, text, stop => ⟨text.reverse, c, stop⟩
  | fuel + 1, c, text, stop =>
    let c := dedent indent indent c
    match c.lineEnd? with
    | some (b, c) => breaks indent fuel c (b :: text) c.mark
    | none => ⟨text.reverse, c, stop⟩

/-- The lines, reversed, without the last line end, which is kept apart with the empty lines after it. -/
structure Body where
  text : List Char
  lineEnd : List Char
  trailing : Breaks

/-- A line end between two lines, as it is read. -/
def joint (folded : Bool) (lineEnd : List Char) (flush : Bool) (noBreaks : Bool) : List Char :=
  if folded && lineEnd == ['\n'] && flush then if noBreaks then [' '] else [] else lineEnd

def lines (folded : Bool) (indent : Nat) (atMargin : Bool) :
    (fuel : Nat) → (text lineEnd : List Char) → Breaks → Body
  | 0, text, lineEnd, b => ⟨text, lineEnd, b⟩
  | fuel + 1, text, lineEnd, b =>
    let c := b.cursor
    if c.mark.column ≠ indent ∨ c.rest.isEmpty then ⟨text, lineEnd, b⟩
    else
      let flush (c : Cursor) : Bool := c.peek != ' ' && c.peek != '\t'
      let (line, after) := c.takeWhile (!isEnd ·)
      let text := line.reverse ++ b.text.reverse ++ text
      let (lineEnd, after) := match after.lineEnd? with
        | some (x, d) => ([x], d)
        | none => ([], after)
      let next := breaks indent fuel after [] after.mark
      if (atMargin && next.cursor.isBoundaryLine) || next.cursor.mark.column ≠ indent ||
          next.cursor.rest.isEmpty then ⟨text, lineEnd, next⟩
      else
        let between := joint folded lineEnd (flush c && flush next.cursor) next.text.isEmpty
        lines folded indent atMargin fuel (between.reverse ++ text) lineEnd next

/-- Reads a scalar from its indicator on, in a block of the given indentation; `fuel` exceeds the number of
characters. -/
def read (blockIndent : Int) (fuel : Nat) (c : Cursor) : Except Error (Token × Cursor) := do
  let start := c.mark
  let (h, first) ← header start c.next
  let least := (blockIndent + 1).toNat
  let (indent, leading) := match h.increment? with
    | some n =>
      let indent := max least 1 + n - 1
      (indent, breaks indent fuel first [] first.mark)
    | none =>
      let (b, widest) := firstBreaks fuel first [] 0 first.mark
      (max least widest, b)
  let atMargin := least == 0 && h.increment?.isNone
  let b := lines (c.peek == '>') indent atMargin fuel [] [] leading
  let tail := match h.chomping with
    | .strip => []
    | .clip => b.lineEnd
    | .keep => b.lineEnd ++ b.trailing.text
  let text := Text.ofChars (b.text.reverse ++ tail)
  return (⟨.scalar text false, start, b.trailing.stop⟩, b.trailing.cursor)

end BlockScalar
end Yaml
end TypedErrors
