import TypedErrors.Source.Scanner

/-! # One token of lookahead

The grammar is read with one token ahead. What may follow a token depends on the token alone and not on
what it is part of, so the next token is scanned for all of that; whether it fits is checked when it is
used. A misfit is therefore reported either with all that could follow the last token or with what the
place of use allows. -/

namespace TypedErrors

/-- What may stand at a place. -/
structure Site where
  accepts : List Terminal
  mayEnd : Bool := false
deriving DecidableEq, Inhabited

namespace Site

/-- A misfit that no accepted terminal matches is reported without the words where names are accepted. -/
def withoutWords (s : Site) : Site :=
  { accepts := if s.accepts.contains .name then s.accepts.filter (!·.isWord) else s.accepts }

/-- The expected things in code point order. -/
def description (s : Site) : String :=
  let names := s.accepts.map Terminal.description ++ if s.mayEnd then ["$end"] else []
  ", ".intercalate (names.mergeSort fun a b => decide (a ≤ b))

end Site

inductive SyntaxError where
  | token (t : Token) (expected : Site)
  | endOfInput (last : Option Token) (expected : Site)
  | character (c : Char) (place : Position)
deriving DecidableEq

namespace SyntaxError

def message : SyntaxError → String
  | .token t expected => s!"Unexpected token \x60{t.text}\x60, expected one of: {expected.description}"
  | .endOfInput _ expected => s!"Unexpected end of input, expected one of: {expected.description}"
  | .character c _ => s!"Unexpected character \x60{c}\x60"

/-- Where the misfit starts; at the end of the input, where the last token does. -/
def place : SyntaxError → Position
  | .token t _ => t.start
  | .endOfInput last _ => (last.map (·.start)).getD {}
  | .character _ p => p

end SyntaxError

/-- The token ahead (none at the end of the input), what follows it, and the token before it. -/
structure Lookahead where
  token? : Option Token
  after : Cursor
  last : Option Token := none
deriving Inhabited

/-- Scans the token ahead for all that may stand at the site. -/
def Lookahead.fetch (site : Site) (last : Option Token) (c : Cursor) : Except SyntaxError Lookahead :=
  match Scan.next site.accepts c with
  | .token t after => .ok ⟨some t, after, last⟩
  | .endOfInput => if site.mayEnd then .ok ⟨none, c, last⟩ else .error (.endOfInput last site)
  | .refused t => .error (.token t site.withoutWords)
  | .unknown x p => .error (.character x p)

/-- Reading with a token ahead. -/
abbrev Parse := StateT Lookahead (Except SyntaxError)

namespace Parse

def peek : Parse (Option Terminal) := do return (← get).token?.map (·.terminal)

/-- Refuses a token ahead that does not fit the site. -/
def check (site : Site) : Parse Unit := do
  let a ← get
  match a.token? with
  | some t => if site.accepts.contains t.terminal then pure () else throw (.token t site)
  | none => if site.mayEnd then pure () else throw (.endOfInput a.last site)

/-- Takes the token ahead; `site` is all that may follow it. -/
def shift (site : Site) : Parse Token := do
  let a ← get
  match a.token? with
  | some t =>
    set (← Lookahead.fetch site (some t) a.after)
    return t
  | none => throw (.endOfInput a.last site)

/-- Where the token ahead starts. -/
def here : Parse Position := do
  match (← get).token? with
  | some t => return t.start
  | none => return {}

/-- Where the last token taken ends. -/
def there : Parse Position := do
  match (← get).last with
  | some t => return t.stop
  | none => return {}

/-- Ends a recursion that has outrun the input. -/
def exhausted {α : Type} : Parse α := do throw (.endOfInput (← get).last ⟨[], true⟩)

end Parse
end TypedErrors
