import TypedErrors.Text.Escape
import TypedErrors.Yaml.Token

/-! # Quoted scalars

Between single quotes a quote is written twice; between double quotes a backslash starts an escape. Lines
are folded: blanks around a line end go, a single line end is read as a space, of several the first goes. -/

namespace TypedErrors
namespace Yaml
namespace QuotedScalar

/-- Escapes of one character. -/
def simpleEscapes : List (Char × Char) :=
  [('0', '\x00'), ('a', '\x07'), ('b', '\x08'), ('t', '\t'), ('\t', '\t'), ('n', '\n'), ('v', '\x0b'),
    ('f', '\x0c'), ('r', '\r'), ('e', '\x1b'), (' ', ' '), ('"', '"'), ('/', '/'), ('\\', '\\'),
    ('N', '\x85'), ('_', '\u00a0'), ('L', '\u2028'), ('P', '\u2029')]

/-- How many hexadecimal digits a numeric escape has. -/
def escapeDigits? (c : Char) : Option Nat :=
  if c = 'x' then some 2 else if c = 'u' then some 4 else if c = 'U' then some 8 else none

def fault (start : Mark) (context message : String) (c : Cursor) : Error :=
  .problem { context? := some (context, start), message := Text.ofString message, mark := c.mark }

/-- Line ends and the blanks in front of lines. -/
def foldLines (start : Mark) : (fuel : Nat) → Cursor → (breaks : Text) → Except Error (Text × Cursor)
  | 0, c, breaks => .ok (breaks.reverse, c)
  | fuel + 1, c, breaks =>
    if c.isBoundary then
      .error (fault start "while scanning a quoted scalar" "found unexpected document separator" c)
    else
      let c := c.skipWhile fun x => x == ' ' || x == '\t'
      match c.lineEnd? with
      | none => .ok (breaks.reverse, c)
      | some (b, c) => foldLines start fuel c (.char b :: breaks)

/-- Blanks and line ends between words. -/
def between (start : Mark) (fuel : Nat) (c : Cursor) : Except Error (Text × Cursor) := do
  let (blanks, c) := c.takeWhile fun x => x == ' ' || x == '\t'
  match c.lineEnd? with
  | some (b, c) =>
    let (breaks, c) ← foldLines start fuel c []
    return ((if b ≠ '\n' then [.char b] else if breaks.isEmpty then [.char ' '] else []) ++ breaks, c)
  | none =>
    if c.rest.isEmpty then
      throw (fault start "while scanning a quoted scalar" "found unexpected end of stream" c)
    else return (Text.ofChars blanks, c)

/-- The first of some characters that is no hexadecimal digit. -/
def strayDigit? (cs : List Char) : Option Char := cs.find? fun x => (Escape.hexValue? x).isNone

/-- What comes after a backslash. -/
def escape (start : Mark) (fuel : Nat) (c : Cursor) : Except Error (Text × Cursor) :=
  let context := "while scanning a double-quoted scalar"
  match simpleEscapes.lookup c.peek with
  | some x => .ok ([.char x], c.next)
  | none =>
    match escapeDigits? c.peek with
    | some n =>
      let c := c.next
      let digits := (List.range n).map fun k => c.peek k
      match strayDigit? digits with
      | some x =>
        let message := s!"expected escape sequence of {n} hexadecimal numbers, but found " ++ shownChar x
        .error (fault start context message c)
      | none =>
        let code := Numeral.value 16 digits
        match CodePoint.ofNat? code with
        | some p => .ok ([p], c.forward n)
        | none => .error (.value (if code < Nat.pow 2 31 then .codePoint else .machineInteger))
    | none =>
      match c.lineEnd? with
      | some (_, c) => foldLines start fuel c []
      | none => .error (fault start context ("found unknown escape character " ++ shownChar c.peek) c)

/-- Reads up to the closing quote. -/
def body (isDouble : Bool) (start : Mark) : (fuel : Nat) → Cursor → (text : Text) →
    Except Error (Text × Cursor)
  | 0, c, text => .ok (text.reverse, c)
  | fuel + 1, c, text =>
    let x := c.peek
    if x = ' ' ∨ x = '\t' ∨ isLineEnd x ∨ c.rest.isEmpty then
      match between start fuel c with
      | .error e => .error e
      | .ok (t, c) => body isDouble start fuel c (t.reverse ++ text)
    else if isDouble then
      if x = '"' then .ok (text.reverse, c.next)
      else if x = '\\' then
        match escape start fuel c.next with
        | .error e => .error e
        | .ok (t, c) => body isDouble start fuel c (t.reverse ++ text)
      else body isDouble start fuel c.next (.char x :: text)
    else if x = '\'' then
      if c.peek 1 = '\'' then body isDouble start fuel (c.forward 2) (.char '\'' :: text)
      else .ok (text.reverse, c.next)
    else body isDouble start fuel c.next (.char x :: text)

/-- Reads a scalar from its opening quote on; `fuel` exceeds the number of characters. -/
def read (fuel : Nat) (c : Cursor) : Except Error (Token × Cursor) := do
  let (text, after) ← body (c.peek == '"') c.mark fuel c.next []
  return (⟨.scalar text false, c.mark, after.mark⟩, after)

end QuotedScalar
end Yaml
end TypedErrors
