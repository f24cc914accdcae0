import TypedErrors.Attribute.Node
import TypedErrors.Source.Declaration
import TypedErrors.Text.Expression

/-! # Reading attribute blocks

    node  := path ( '(' args ')' | '=' value )?
    args  := ( arg ( ',' arg )* ','? )?
    arg   := literal | node
    value := literal | path
    path  := NAME ( ( '.' | '::' ) NAME )*

The words `true` and `false` are literals where a literal may stand, but before `=` an argument that starts
with one is a name with a value. -/

namespace TypedErrors
namespace AttrParse

/-- The span from the start of the first to the end of the second, as far as they are known. -/
def joinSpans : Option Span → Option Span → Option Span
  | none, b => b
  | some a, b => some (a.join b)

/-- A report about the token `t`, or about the end of the block. -/
def misfit (eof : Option Span) (what : String) : List AttrToken → Fault
  | t :: _ => .report (.grammar s!"Expected {what}, found \x60{t.text}\x60" t.span)
  | [] => .report (.grammar s!"Expected {what}, found end of attribute" eof)

def boolWord? (t : AttrToken) : Option Bool :=
  if t.terminal = .name then
    if t.text = "true" then some true else if t.text = "false" then some false else none
  else none

/-- The token alone is a literal. -/
def isLiteral (t : AttrToken) : Bool :=
  [Terminal.string, .char, .int, .float].contains t.terminal || (boolWord? t).isSome

/-- The text that the token denotes. What is wrong is told of a single literal only. -/
def decodeQuoted (t : AttrToken) : Except Fault Text :=
  match Expression.single? t.text.toList with
  | some (isRaw, body) =>
    match Escape.decode isRaw body with
    | .ok v => .ok v
    | .error e => .error (.report (.grammar s!"Invalid literal {t.text}: {e.message}" t.span))
  | none =>
    match Expression.read? t.text.toList with
    | some v => .ok v
    | none => .error (.report (.grammar s!"Invalid literal {t.text}" t.span))

/-- The literal that one token denotes. -/
def literal (t : AttrToken) : Except Fault Literal :=
  match boolWord? t with
  | some b => .ok (.bool b t.span)
  | none =>
    match t.terminal with
    | .string => do return .string ⟨← decodeQuoted t, t.span⟩
    | .char => do
      match ← decodeQuoted t with
      | [c] => return .char c t.span
      | _ => throw (.report (.grammar s!"Character literal must hold one character: {t.text}" t.span))
    | .int =>
      match Numeral.readLiteral t.text with
      | .ok n => .ok (.int n t.text t.span)
      | .error e => .error (.abort (.numeral e))
    | .float =>
      match Numeral.readFloat ((Text.ofString t.text).filter (· ≠ .char '_')) with
      | .ok x => .ok (.float x t.text t.span)
      | .error e => .error (.abort (.numeral e))
    | _ => .error (.report (.grammar s!"Expected literal, found \x60{t.text}\x60" t.span))

/-- The segments after the first. -/
def pathRest (eof : Option Span) (acc : List Ident) : List AttrToken → Except Fault (List Ident × List AttrToken)
  | [] => .ok (acc.reverse, [])
  | t :: ts =>
    if t.terminal = .dot ∨ t.terminal = .pathSep then
      match ts with
      | s :: rest =>
        if s.terminal = .name then pathRest eof (⟨s.text, s.span⟩ :: acc) rest
        else .error (misfit eof "identifier after path separator" (s :: rest))
      | [] => .error (misfit eof "identifier after path separator" [])
    else .ok (acc.reverse, t :: ts)

def path (eof : Option Span) : List AttrToken → Except Fault (SymbolPath × List AttrToken)
  | [] => .error (misfit eof "identifier" [])
  | t :: ts =>
    if t.terminal = .name then do
      let (more, rest) ← pathRest eof [] ts
      let first : Ident := ⟨t.text, t.span⟩
      let stop := (more.getLast?.getD first).span
      return (⟨first :: more, t.span.map (·.join stop)⟩, rest)
    else .error (misfit eof "identifier" (t :: ts))

def value (eof : Option Span) : List AttrToken → Except Fault (AttrValue × List AttrToken)
  | [] => .error (misfit eof "path or literal" [])
  | t :: ts =>
    if isLiteral t then do return (.literal (← literal t), ts)
    else if t.terminal = .name then do
      let (p, rest) ← path eof (t :: ts)
      return (.path p, rest)
    else .error (misfit eof "path or literal" (t :: ts))

def startsWith (terminal : Terminal) : List AttrToken → Bool
  | t :: _ => t.terminal = terminal
  | [] => false

mutual

def node (eof : Option Span) : (fuel : Nat) → List AttrToken → Except Fault (AttrNode × List AttrToken)
  | 0, ts => .error (misfit eof "more input" ts)
  | n + 1, ts => do
    let (p, rest) ← path eof ts
    match rest with
    | t :: rest' =>
      if t.terminal = .leftParen then
        let (args, close, rest'') ← args eof n [] rest'
        return (.list p args (joinSpans p.span close), rest'')
      else if t.terminal = .equal then
        let (v, rest'') ← value eof rest'
        return (.assign p v (joinSpans p.span v.span), rest'')
      else return (.word p p.span, rest)
    | [] => return (.word p p.span, [])

/-- Arguments up to the closing parenthesis, whose span comes with them. -/
def args (eof : Option Span) : (fuel : Nat) → (acc : List AttrArg) → List AttrToken →
    Except Fault (List AttrArg × Option Span × List AttrToken)
  | 0, _, ts => .error (misfit eof "more input" ts)
  | _ + 1, _, [] => .error (misfit eof "path or literal" [])
  | n + 1, acc, t :: ts => do
    if t.terminal = .rightParen then return (acc.reverse, t.span, ts)
    else
      let (a, rest) ← arg eof n (t :: ts)
      match rest with
      | c :: rest' =>
        if c.terminal = .comma then args eof n (a :: acc) rest'
        else if c.terminal = .rightParen then args eof n (a :: acc) rest
        else throw (misfit eof "\x60,\x60 or \x60)\x60" rest)
      | [] => throw (misfit eof "\x60,\x60 or \x60)\x60" [])

def arg (eof : Option Span) : (fuel : Nat) → List AttrToken → Except Fault (AttrArg × List AttrToken)
  | 0, ts => .error (misfit eof "more input" ts)
  | _ + 1, [] => .error (misfit eof "path or literal" [])
  | n + 1, t :: ts => do
    if isLiteral t && !((boolWord? t).isSome && startsWith .equal ts) then
      return (.literal (← literal t), ts)
    else if t.terminal = .name then
      let (m, rest) ← node eof n (t :: ts)
      return (.node m, rest)
    else throw (misfit eof "path or literal" (t :: ts))

end

end AttrParse

/-- Reads the tokens of one attribute block to the last. -/
def parseAttribute (a : RawAttribute) : Except Fault AttrNode := do
  let eof := match a.tokens.getLast? with
    | some t => t.span
    | none => a.span
  let (m, rest) ← AttrParse.node eof (3 * a.tokens.length + 3) a.tokens
  match rest with
  | [] => return m
  | t :: _ => throw (.report (.grammar s!"Unexpected token \x60{t.text}\x60 after attribute" t.span))

end TypedErrors
