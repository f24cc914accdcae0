import TypedErrors.Yaml.Token

/-! # Plain scalars

A plain scalar has no delimiters. It runs on over line ends as long as the following lines are indented
further than the block around it; a single line end is read as a space, of several the first goes. -/

namespace TypedErrors
namespace Yaml
namespace PlainScalar

/-- Which characters cannot start a plain scalar whatever follows. -/
def isIndicator (c : Char) : Bool := "\x00 \t\r\n\x85\u2028\u2029-?:,[]\x7b\x7d#&*!|>'\"%@\u0060".contains c

/-- Whether a plain scalar starts here. A hyphen may start one if no gap follows, so may a question mark
or a colon in block context, and a colon in flow context if neither blank follows. -/
def starts (inFlow : Bool) (c : Cursor) : Bool :=
  let first := c.peek
  let second := c.peek 1
  !isIndicator first || (first == '-' && !isGap second) ||
    (first == ':' && inFlow && second != ' ' && second != '\t') ||
    (!inFlow && (first == '?' || first == ':') && !isGap second)

/-- A word ends at a gap and at a colon in front of one, in flow context also at a bracket or a comma. -/
def endsWord (inFlow : Bool) (c after : Char) : Bool :=
  if c = ':' then isGap after
  else isGap c || (inFlow && (c == ',' || c == '[' || c == ']' || c == '\x7b' || c == '\x7d'))

def wordLength (inFlow : Bool) : List Char → Nat
  | [] => 0
  | c :: cs =>
    if endsWord inFlow c (cs.head?.getD '\x00') then 0 else wordLength inFlow cs + 1

/-- What stands between two words. -/
structure Between where
  /-- What it is read as; nothing if the scalar cannot go on. -/
  text : List Char
  cursor : Cursor
  /-- A line end was passed. -/
  hasLineEnd : Bool

/-- Line ends and spaces before the next word, up to a document boundary. -/
def foldLines : (fuel : Nat) → Cursor → (breaks : List Char) → Option (List Char) × Cursor
  | 0, c, breaks => (some breaks.reverse, c)
  | fuel + 1, c, breaks =>
    if c.peek = ' ' then foldLines fuel c.next breaks
    else match c.lineEnd? with
      | none => (some breaks.reverse, c)
      | some (b, c) => if c.isBoundary then (none, c) else foldLines fuel c (b :: breaks)

def between (fuel : Nat) (c : Cursor) : Between :=
  let (spaces, c) := c.takeWhile (· == ' ')
  match c.lineEnd? with
  | none => ⟨spaces, c, false⟩
  | some (b, c) =>
    if c.isBoundary then ⟨[], c, true⟩
    else match foldLines fuel c [] with
      | (none, c) => ⟨[], c, true⟩
      | (some breaks, c) =>
        ⟨(if b ≠ '\n' then [b] else if breaks.isEmpty then [' '] else []) ++ breaks, c, true⟩

structure Result where
  token : Token
  cursor : Cursor
  hasLineEnd : Bool

/-- Reads words from `c` on; `text` holds what was read, reversed, and `pending` what to put in front of
the next word. -/
def words (inFlow : Bool) (indent : Int) (start : Mark) :
    (fuel : Nat) → Cursor → (text pending : List Char) → (stop : Mark) → (hasLineEnd : Bool) → Result
  | 0, c, text, _, stop, hasLineEnd =>
    ⟨⟨.scalar (Text.ofChars text.reverse) true, start, stop⟩, c, hasLineEnd⟩
  | fuel + 1, c, text, pending, stop, hasLineEnd =>
    let n := wordLength inFlow c.rest
    if c.peek = '#' ∨ n = 0 then
      ⟨⟨.scalar (Text.ofChars text.reverse) true, start, stop⟩, c, hasLineEnd⟩
    else
      let text := (c.rest.take n).reverse ++ pending.reverse ++ text
      let c := c.forward n
      let b := between fuel c
      if b.text.isEmpty || b.cursor.peek == '#' ||
          (!inFlow && (b.cursor.mark.column : Int) < indent) then
        ⟨⟨.scalar (Text.ofChars text.reverse) true, start, c.mark⟩, b.cursor, b.hasLineEnd⟩
      else words inFlow indent start fuel b.cursor text b.text c.mark b.hasLineEnd

/-- Reads a plain scalar whose lines are indented by `indent` at least; `fuel` exceeds the number of
characters. -/
def read (inFlow : Bool) (indent : Int) (fuel : Nat) (c : Cursor) : Result :=
  words inFlow indent c.mark fuel c [] [] c.mark false

end PlainScalar
end Yaml
end TypedErrors
