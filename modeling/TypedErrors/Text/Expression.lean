import TypedErrors.Text.Escape

/-! # Texts spelled by expressions

A text is commonly spelled by one literal (`Expression.single?`). It may also be spelled by several side by side, in
parentheses, with blanks and comments between them. Outside parentheses an expression ends with its line, which may
not be indented. -/

namespace TypedErrors
namespace Expression

/-- Most parentheses around a literal. -/
def nestingLimit : Nat := 200

def isQuote (c : Char) : Bool := c == '"' || c == '\''

/-- Takes a letter off the front of a literal: whether escapes are taken as they are, and the rest. -/
def unlettered : List Char → Bool × List Char
  | [] => (false, [])
  | c :: cs =>
    if c = 'r' ∨ c = 'R' then (true, cs) else if c = 'u' ∨ c = 'U' then (false, cs) else (false, c :: cs)

/-- The quote stands in a body only behind a backslash. -/
def isOpen (quote : Char) : List Char → Bool
  | [] => true
  | '\\' :: _ :: cs => isOpen quote cs
  | c :: cs => c ≠ quote && isOpen quote cs

/-- A text that is one literal: whether it takes escapes as they are, and what stands between its quotes. -/
def single? (cs : List Char) : Option (Bool × List Char) :=
  match unlettered cs with
  | (_, []) => none
  | (isRaw, quote :: rest) =>
    if isQuote quote && rest.getLast? = some quote && isOpen quote rest.dropLast then some (isRaw, rest.dropLast)
    else none

/-- What stands before the closing quotes, and what follows them. Only between long quotes a line may end. -/
def body? (quotes : List Char) : List Char → Option (List Char × List Char)
  | [] => none
  | '\\' :: c :: cs => (body? quotes cs).map (Prod.map ('\\' :: c :: ·) id)
  | c :: cs =>
    if quotes.isPrefixOf (c :: cs) then some ([], (c :: cs).drop quotes.length)
    else if c = '\n' ∧ quotes.length = 1 then none
    else (body? quotes cs).map (Prod.map (c :: ·) id)

/-- The text of a literal in front, and what follows it. -/
def literal? (cs : List Char) : Option (Text × List Char) :=
  match unlettered cs with
  | (_, []) => none
  | (isRaw, quote :: rest) =>
    let quotes := if [quote, quote].isPrefixOf rest then [quote, quote, quote] else [quote]
    if isQuote quote then
      (body? quotes (rest.drop (quotes.length - 1))).bind fun (body, rest) =>
        (Escape.denoted isRaw body).toOption.map (·, rest)
    else none

/-- What follows a gap. In parentheses lines may end in it, with comments before their ends. -/
def afterGap (isInner inComment : Bool) : List Char → List Char
  | [] => []
  | '\\' :: '\n' :: c :: cs => afterGap isInner false (c :: cs)
  | c :: cs =>
    if c = '\n' then if isInner then afterGap isInner false cs else c :: cs
    else if inComment || c = ' ' || c = '\t' || c = '\x0c' then afterGap isInner inComment cs
    else if isInner && c = '#' then afterGap isInner true cs
    else c :: cs

/-- Literals side by side, at least one and at most `most`. -/
def literals? (isInner : Bool) : (most : Nat) → List Char → Option (Text × List Char)
  | 0, _ => none
  | n + 1, cs => do
    let (t, rest) ← literal? cs
    let rest := afterGap isInner false rest
    match literals? isInner n rest with
    | some (u, rest) => return (t ++ u, rest)
    | none => return (t, rest)

/-- Literals in at most `most` parentheses, and what follows the gap behind them. -/
def group? (isInner : Bool) : (most : Nat) → List Char → Option (Text × List Char)
  | n + 1, '(' :: cs => do
    let (t, rest) ← group? true n (afterGap true false cs)
    match rest with
    | ')' :: rest => return (t, afterGap isInner false rest)
    | _ => none
  | _, cs => literals? isInner cs.length cs

/-- Skips lines without code: the indentation of the next one, and its code. The indentation of a line that is
continued is the first that is not zero. -/
def codeStart (column kept : Nat) (inComment : Bool) : List Char → Nat × List Char
  | [] => (if inComment then 0 else if kept = 0 then column else kept, [])
  | '\\' :: '\n' :: c :: cs =>
    if inComment then codeStart 0 0 false (c :: cs)
    else codeStart column (if kept = 0 then column else kept) false (c :: cs)
  | c :: cs =>
    if c = '\n' then codeStart 0 0 false cs
    else if inComment || c = '#' then codeStart column kept true cs
    else if c = ' ' then codeStart (column + 1) kept false cs
    else if c = '\t' then codeStart ((column / 8 + 1) * 8) kept false cs
    else if c = '\x0c' then codeStart 0 kept false cs
    else (if kept = 0 then column else kept, c :: cs)

/-- Nothing but a comment and lines without code. -/
def isOver : List Char → Bool
  | [] => true
  | c :: cs => (c = '#' || c = '\n') && codeStart 0 0 (c = '#') cs = (0, [])

/-- The text that an expression spells. -/
def read? (cs : List Char) : Option Text :=
  if cs.contains '\x00' then none
  else
    let (column, code) := codeStart 0 0 false ((unifyLineEnds cs).dropWhile fun c => c == ' ' || c == '\t')
    match group? false nestingLimit code with
    | some (t, rest) => if column = 0 && isOver rest then some t else none
    | none => none

end Expression
end TypedErrors
