import TypedErrors.Text.Printable

/-! # Quoted text

The literal that denotes a text: the delimiter, backslash and control characters are escaped, and
so is whatever a predicate calls unprintable, by the shortest of the forms `\xNN`, `\uNNNN` and
`\UNNNNNNNN` that fits. -/

namespace TypedErrors
namespace Quoted

def hexDigit (n : Nat) : Char :=
  if n < 10 then Char.ofNat (0x30 + n) else Char.ofNat (0x57 + n)

/-- The last `width` hexadecimal digits of `n`, in lower case. -/
def hex : (width n : Nat) → List Char
  | 0, _ => []
  | w + 1, n => hex w (n / 16) ++ [hexDigit (n % 16)]

/-- The numeric escape of a code point. -/
def numeric (n : Nat) : List Char :=
  if n < 0x100 then '\\' :: 'x' :: hex 2 n
  else if n < 0x10000 then '\\' :: 'u' :: hex 4 n
  else '\\' :: 'U' :: hex 8 n

def escapeChar (printable : CodePoint → Bool) (delimiter c : Char) : List Char :=
  if c = delimiter ∨ c = '\\' then ['\\', c]
  else if c = '\t' then ['\\', 't']
  else if c = '\n' then ['\\', 'n']
  else if c = '\r' then ['\\', 'r']
  else if c.toNat < 0x80 then
    if 0x20 ≤ c.toNat ∧ c.toNat < 0x7f then [c] else numeric c.toNat
  else if printable (.char c) then [c] else numeric c.toNat

def escape (printable : CodePoint → Bool) (delimiter : Char) : CodePoint → List Char
  | .char c => escapeChar printable delimiter c
  | .surrogate i => numeric (CodePoint.surrogate i).toNat

def body (printable : CodePoint → Bool) (delimiter : Char) (t : Text) : List Char :=
  t.flatMap (escape printable delimiter)

def within (printable : CodePoint → Bool) (delimiter : Char) (t : Text) : List Char :=
  delimiter :: body printable delimiter t ++ [delimiter]

/-- Double quotes, unless the text itself holds one. -/
def literalBy (printable : CodePoint → Bool) (t : Text) : List Char :=
  within printable (if t.contains (.char '"') then '\'' else '"') t

/-- Single quotes, unless the text holds one and no double quote. -/
def displayBy (printable : CodePoint → Bool) (t : Text) : List Char :=
  within printable
    (if t.contains (.char '\'') && !t.contains (.char '"') then '"' else '\'') t

end Quoted

/-- The literal of a text in generated code. -/
def Text.literal (t : Text) : String := String.ofList (Quoted.literalBy CodePoint.isPrintable t)

/-- The quoted form of a text in messages. -/
def Text.display (t : Text) : String := String.ofList (Quoted.displayBy CodePoint.isPrintable t)

end TypedErrors
