import TypedErrors.Text.Blank
import TypedErrors.Text.Quoted

/-! # Reading quoted literals

`Escape.decode` reads the characters between the quotes of a literal. A bad escape is reported by its
place in the *ASCII form* of the literal, in which every character beyond ASCII is spelled as an
eight-digit escape. -/

namespace TypedErrors

/-- What is wrong with an escape. -/
inductive EscapeFault where
  | truncated (kind : Char) (digits : Nat)
  | beyondUnicode
  | malformedName
  | unknownName
deriving DecidableEq

def EscapeFault.message : EscapeFault → String
  | .truncated kind digits =>
    "truncated \\" ++ kind.toString ++ String.ofList (List.replicate digits 'X') ++ " escape"
  | .beyondUnicode => "illegal Unicode character"
  | .malformedName => "malformed \\N character escape"
  | .unknownName => "unknown Unicode character name"

/-- A bad escape and its place, first and last character. -/
structure EscapeError where
  first : Nat
  last : Nat
  fault : EscapeFault
deriving DecidableEq

/-- Why a quoted literal denotes no text. The lines are those where the literal ends. -/
inductive LiteralError where
  | nullCharacter
  | leftOpen (line : Nat)
  | escape (line : Nat) (e : EscapeError)
deriving DecidableEq

def LiteralError.message : LiteralError → String
  | .nullCharacter => "source code string cannot contain null bytes"
  | .leftOpen line =>
    s!"unterminated string literal (detected at line {line}) (<unknown>, line 1)"
  | .escape line e =>
    s!"(unicode error) 'unicodeescape' codec can't decode bytes in position {e.first}-{e.last}: " ++
      e.fault.message ++ s!" (<unknown>, line {line})"

namespace Escape

def hexValue? (c : Char) : Option Nat :=
  if '0' ≤ c ∧ c ≤ '9' then some (c.toNat - 0x30)
  else if 'a' ≤ c ∧ c ≤ 'f' then some (c.toNat - 0x57)
  else if 'A' ≤ c ∧ c ≤ 'F' then some (c.toNat - 0x37)
  else none

def octalValue? (c : Char) : Option Nat :=
  if '0' ≤ c ∧ c ≤ '7' then some (c.toNat - 0x30) else none

/-- Takes digits off the front, at most `count`: how many, their value, what follows. -/
def takeDigits (value? : Char → Option Nat) (base : Nat) :
    (count acc taken : Nat) → List Char → Nat × Nat × List Char
  | 0, acc, taken, cs => (taken, acc, cs)
  | _ + 1, acc, taken, [] => (taken, acc, [])
  | n + 1, acc, taken, c :: cs =>
    match value? c with
    | some d => takeDigits value? base n (acc * base + d) (taken + 1) cs
    | none => (taken, acc, c :: cs)

/-- Characters beyond ASCII become eight-digit escapes, and a backslash before one is escaped. -/
def asciiForm : List Char → List Char
  | [] => []
  | '\\' :: c :: cs =>
    if c.toNat < 0x80 then '\\' :: c :: asciiForm cs
    else '\\' :: 'u' :: Quoted.hex 4 0x5c ++ '\\' :: 'U' :: Quoted.hex 8 c.toNat ++ asciiForm cs
  | c :: cs =>
    if c.toNat < 0x80 then c :: asciiForm cs
    else '\\' :: 'U' :: Quoted.hex 8 c.toNat ++ asciiForm cs

/-- One escape, its backslash taken off: the text it denotes, and how many characters it has. -/
def escaped (start : Nat) : List Char → Except EscapeError (Text × Nat)
  | [] => .ok ([.char '\\'], 0)
  | c :: cs =>
    let simple (d : Char) := .ok ([.char d], 1)
    let numbered (digits : Nat) :=
      let (taken, value, _) := takeDigits hexValue? 16 digits 0 0 cs
      if taken < digits then .error ⟨start, start + 1 + taken, .truncated c digits⟩
      else match CodePoint.ofNat? value with
        | some p => .ok ([p], 1 + digits)
        | none => .error ⟨start, start + 1 + digits, .beyondUnicode⟩
    match c with
    | '\n' => .ok ([], 1)
    | '\\' => simple '\\'
    | '\'' => simple '\''
    | '"' => simple '"'
    | 'a' => simple '\x07'
    | 'b' => simple '\x08'
    | 'f' => simple '\x0c'
    | 'n' => simple '\n'
    | 'r' => simple '\r'
    | 't' => simple '\t'
    | 'v' => simple '\x0b'
    | 'x' => numbered 2
    | 'u' => numbered 4
    | 'U' => numbered 8
    | 'N' =>
      match cs with
      | '{' :: name =>
        let n := (name.takeWhile (· ≠ '}')).length
        if n = name.length then .error ⟨start, start + 2 + n, .malformedName⟩
        else if n = 0 then .error ⟨start, start + 2, .malformedName⟩
        else .error ⟨start, start + 3 + n, .unknownName⟩
      | _ => .error ⟨start, start + 1, .malformedName⟩
    | _ =>
      match takeDigits octalValue? 8 3 0 0 (c :: cs) with
      | (0, _, _) => .ok ([.char '\\', .char c], 1)
      | (taken, value, _) => .ok ((CodePoint.ofNat? value).toList, taken)

/-- Reads an ASCII form, of which `skip` characters belong to an escape already read. -/
def read (position skip : Nat) : List Char → Except EscapeError Text
  | [] => .ok []
  | c :: cs =>
    match skip with
    | k + 1 => read (position + 1) k cs
    | 0 =>
      if c = '\\' then do
        let (t, n) ← escaped position cs
        let rest ← read (position + 1) n cs
        return t ++ rest
      else do
        let rest ← read (position + 1) 0 cs
        return .char c :: rest

/-- The line on which a literal is left open, with lines counted from `line`: at a line end that no backslash
precedes, or at its end, when a backslash takes the closing quote. -/
def openLine? (line : Nat) : List Char → Option Nat
  | [] => none
  | ['\\'] => some line
  | '\\' :: c :: cs => openLine? (if c = '\n' then line + 1 else line) cs
  | c :: cs => if c = '\n' then some line else openLine? line cs

/-- The text that the lines between the quotes of a literal denote. -/
def denoted (isRaw : Bool) (lines : List Char) : Except EscapeError Text :=
  if isRaw then .ok (Text.ofChars lines) else read 0 0 (asciiForm lines)

/-- The text between the quotes of a literal. -/
def decode (isRaw : Bool) (cs : List Char) : Except LiteralError Text :=
  let lines := unifyLineEnds cs
  if cs.contains '\x00' then .error .nullCharacter
  else match openLine? 1 lines with
    | some line => .error (.leftOpen line)
    | none => (denoted isRaw lines).mapError (.escape (lines.count '\n' + 1))

end Escape
end TypedErrors
