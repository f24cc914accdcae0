import TypedErrors.Source.Terminal

/-! # Scanning

Tokens are read one at a time, each with the list of terminals that the grammar accepts at its place.
A terminal that is not accepted is not tried: where no name is accepted a word may be the front of a
longer one, and where no doc comment is accepted `///` starts an ordinary comment. -/

namespace TypedErrors

structure Position where
  line : Nat := 1
  column : Nat := 1
deriving DecidableEq, Inhabited

/-- The place just past a character. -/
def Position.after (p : Position) (c : Char) : Position :=
  if c = '\n' then ⟨p.line + 1, 1⟩ else ⟨p.line, p.column + 1⟩

structure Cursor where
  position : Position
  rest : List Char
deriving Inhabited

def Cursor.ofString (s : String) : Cursor := ⟨{}, s.toList⟩

/-- Goes past `n` characters. -/
def Cursor.advance : (n : Nat) → Cursor → Cursor
  | 0, c => c
  | n + 1, ⟨p, x :: rest⟩ => Cursor.advance n ⟨p.after x, rest⟩
  | _ + 1, ⟨p, []⟩ => ⟨p, []⟩

structure Token where
  terminal : Terminal
  text : String
  start : Position
  stop : Position
deriving DecidableEq, Inhabited

namespace Scan

def isNameStart (c : Char) : Bool := c.isAlpha || c == '_'

def isNamePart (c : Char) : Bool := c.isAlphanum || c == '_'

def isDigitPart (c : Char) : Bool := c.isDigit || c == '_'

def isHexPart (c : Char) : Bool :=
  isDigitPart c || ('a' ≤ c && c ≤ 'f') || ('A' ≤ c && c ≤ 'F')

def isSpace (c : Char) : Bool := c == ' ' || c == '\t' || c == '\x0c' || c == '\r' || c == '\n'

/-- How many characters at the front satisfy `p`, added to `acc`. -/
def countWhile (p : Char → Bool) : (acc : Nat) → List Char → Nat
  | acc, [] => acc
  | acc, c :: cs => if p c then countWhile p (acc + 1) cs else acc

/-- Length of a line comment without its start. -/
def toLineEnd (cs : List Char) : Nat := countWhile (· ≠ '\n') 0 cs

def name? : List Char → Option Nat
  | c :: cs => if isNameStart c then some (countWhile isNamePart 1 cs) else none
  | [] => none

/-- Length of the rest of a string, its closing quote included. -/
def stringRest? : (acc : Nat) → List Char → Option Nat
  | acc, '"' :: _ => some (acc + 1)
  | acc, '\\' :: c :: cs => if c = '\n' then none else stringRest? (acc + 2) cs
  | acc, c :: cs => if c = '\\' ∨ c = '\n' then none else stringRest? (acc + 1) cs
  | _, [] => none

def string? : List Char → Option Nat
  | '"' :: cs => stringRest? 1 cs
  | _ => none

/-- One character, or a backslash and one or more characters, in single quotes. -/
def char? : List Char → Option Nat
  | '\'' :: '\\' :: cs =>
    let n := countWhile (fun c => c ≠ '\'' && c ≠ '\n') 0 cs
    if 0 < n ∧ (cs.drop n).head? = some '\'' then some (n + 3) else none
  | '\'' :: c :: '\'' :: _ => if c ≠ '\'' ∧ c ≠ '\n' then some 3 else none
  | _ => none

/-- Length of an exponent: a letter, perhaps a sign, digits. -/
def exponent? : List Char → Option Nat
  | e :: cs =>
    if e = 'e' ∨ e = 'E' then
      let skip := match cs with
        | c :: _ => if c = '+' ∨ c = '-' then 1 else 0
        | [] => 0
      let n := countWhile Char.isDigit 0 (cs.drop skip)
      if 0 < n then some (1 + skip + n) else none
    else none
  | [] => none

/-- Length of a run of digits and underscores that starts with a digit. -/
def digits? : List Char → Option Nat
  | c :: cs => if c.isDigit then some (countWhile isDigitPart 1 cs) else none
  | [] => none

/-- A fraction after the point, an exponent, or both. -/
def float? (cs : List Char) : Option Nat := do
  let whole ← digits? cs
  match cs.drop whole with
  | '.' :: rest =>
    let fraction ← digits? rest
    return whole + 1 + fraction + (exponent? (rest.drop fraction)).getD 0
  | rest => return whole + (← exponent? rest)

def int? : List Char → Option Nat
  | '0' :: c :: cs =>
    let run (p : Char → Bool) : Nat := countWhile p 0 cs
    let n :=
      if c = 'x' ∨ c = 'X' then run isHexPart
      else if c = 'o' ∨ c = 'O' then run fun d => ('0' ≤ d && d ≤ '7') || d == '_'
      else if c = 'b' ∨ c = 'B' then run fun d => d == '0' || d == '1' || d == '_'
      else 0
    if 0 < n then some (n + 2) else digits? ('0' :: c :: cs)
  | cs => digits? cs

def doc? : List Char → Option Nat
  | '/' :: '/' :: '/' :: cs => some (3 + toLineEnd cs)
  | _ => none

/-- Length up to the end of a block comment, if it ends. -/
def blockRest? : (acc : Nat) → List Char → Option Nat
  | acc, '*' :: '/' :: _ => some (acc + 2)
  | acc, _ :: cs => blockRest? (acc + 1) cs
  | _, [] => none

def comment? : List Char → Option Nat
  | '/' :: '/' :: cs => some (2 + toLineEnd cs)
  | '/' :: '*' :: cs => blockRest? 2 cs
  | _ => none

/-- How many characters of space and comments there are at the front; `skip` of them belong to a comment
already seen. A doc comment ends them if `docs`. -/
def trivia (docs : Bool) : (skip acc : Nat) → List Char → Nat
  | _, acc, [] => acc
  | k + 1, acc, _ :: cs => trivia docs k (acc + 1) cs
  | 0, acc, c :: cs =>
    if isSpace c then trivia docs 0 (acc + 1) cs
    else if docs && (doc? (c :: cs)).isSome then acc
    else match comment? (c :: cs) with
      | some n => trivia docs (n - 1) (acc + 1) cs
      | none => acc

/-- The first of the terminals whose spelling stands at the front. -/
def fixed? (spelling? : Terminal → Option String) (cs : List Char) : List Terminal → Option (Terminal × Nat)
  | [] => none
  | t :: ts =>
    match spelling? t with
    | some s => if s.toList.isPrefixOf cs then some (t, s.length) else fixed? spelling? cs ts
    | none => fixed? spelling? cs ts

/-- The accepted word that a name spells, else a plain name. -/
def nameOrWord (accepts : List Terminal) (text : List Char) : Terminal :=
  (accepts.find? fun t => t.word? = some (String.ofList text)).getD .name

/-- The accepted terminal at the front, and its length. -/
def terminal? (accepts : List Terminal) (cs : List Char) : Option (Terminal × Nat) :=
  let class? (t : Terminal) (read? : List Char → Option Nat) : Option (Terminal × Nat) :=
    if accepts.contains t then (read? cs).map (t, ·) else none
  class? .float float?
    <|> class? .doc doc?
    <|> (class? .name name?).map (fun (_, n) => (nameOrWord accepts (cs.take n), n))
    <|> class? .string string?
    <|> class? .char char?
    <|> class? .int int?
    <|> (if accepts.contains .name then none else fixed? Terminal.word? cs (accepts.filter Terminal.isWord))
    <|> fixed? Terminal.symbol? cs (Terminal.symbols.filter accepts.contains)

/-- What stands at a place where some terminals are accepted. -/
inductive Outcome where
  | token (t : Token) (after : Cursor)
  | refused (t : Token)
  | unknown (c : Char) (at_ : Position)
  | endOfInput

/-- The token of `n` characters at the cursor, and the cursor past it. -/
def take (terminal : Terminal) (n : Nat) (c : Cursor) : Token × Cursor :=
  let after := c.advance n
  (⟨terminal, String.ofList (c.rest.take n), c.position, after.position⟩, after)

/-- Goes past space and comments and reads a token. A token of another terminal is refused. -/
def next (accepts : List Terminal) (c : Cursor) : Outcome :=
  let c := c.advance (trivia (accepts.contains .doc) 0 0 c.rest)
  match c.rest with
  | [] => .endOfInput
  | x :: _ =>
    match terminal? accepts c.rest with
    | some (t, n) => let (token, after) := take t n c; .token token after
    | none =>
      match terminal? Terminal.all c.rest with
      | some (t, n) => .refused (take t n c).1
      | none => .unknown x c.position

end Scan
end TypedErrors
