import Mathlib.Data.List.Basic
import TypedErrors.Code.Render
import TypedErrors.Proofs.Text
import TypedErrors.Proofs.Text.Quoted
import TypedErrors.Text.Identifier

/-! # A reader of expressions

The reader takes an atom off the front of a text and then the trailers behind it: attributes, calls and subscripts.
What stands between brackets is shorter than what is read, so the length of the text bounds how deep the reader goes.

It knows only the layout that rendering uses: `, ` between items, and a comma right before the parenthesis in a tuple
of one item. -/

namespace TypedErrors
namespace Code
namespace Reader

/-! ### Words -/

/-- The characters of words and numbers. -/
def isWordChar (c : Char) : Bool := Identifier.isContinue c || c == '-'

def integer : List Char → Int
  | '-' :: ds => -(Nat.ofDigitChars 10 ds 0)
  | ds => Nat.ofDigitChars 10 ds 0

/-- What a word or a number stands for. -/
def ofWord (w : List Char) : Expr :=
  if w = "True".toList then .constant (.bool true)
  else if w = "False".toList then .constant (.bool false)
  else if w = "None".toList then .constant .none
  else if w.head?.any Identifier.isStart then .name (String.ofList w)
  else .constant (.int (integer w))

/-! ### Literals -/

/-- What stands before the closing delimiter, escapes as they are written, and what follows it. -/
def literal? (delimiter : Char) : List Char → Option (List Char × List Char)
  | '\\' :: c :: cs => (literal? delimiter cs).map (Prod.map (['\\', c] ++ ·) id)
  | c :: cs => if c = delimiter then some ([], cs) else (literal? delimiter cs).map (Prod.map ([c] ++ ·) id)
  | [] => none

/-! ### Items -/

/-- An item between brackets. -/
inductive Argument where
  | positional (x : Expr)
  | keyword (k : Keyword)

namespace Argument

def positional? : Argument → Option Expr
  | positional x => some x
  | keyword _ => none

def keyword? : Argument → Option Keyword
  | positional _ => none
  | keyword k => some k

def render : Argument → String
  | positional x => x.render
  | keyword (.mk k v) => k ++ "=" ++ v.render

end Argument

section

variable (read : List Char → Option (Expr × List Char))

/-- What the name before an equals sign and the expression after it make. -/
def keyword? (x : Expr) (cs : List Char) : Option (Argument × List Char) :=
  match x with
  | .name k => (read cs).map fun (v, rest) => (.keyword (.mk k v), rest)
  | _ => none

/-- The item that an expression begins. -/
def item? (x : Expr) : List Char → Option (Argument × List Char)
  | '=' :: cs => keyword? read x cs
  | cs => some (.positional x, cs)

def argument? (cs : List Char) : Option (Argument × List Char) := do
  let (x, rest) ← read cs
  item? read x rest

/-- One or more items, `count` at most. -/
def arguments? : (count : Nat) → List Char → Option (List Argument × List Char)
  | 0, _ => none
  | m + 1, cs => do
    let (a, rest) ← argument? read cs
    if rest.take 2 = [',', ' '] then
      (arguments? m (rest.drop 2)).map (Prod.map (a :: ·) id)
    else some ([a], rest)

/-- The items before a closing bracket. -/
def enclosed? (count : Nat) (cs : List Char) : Option (List Argument × List Char) :=
  if cs.head? = some ')' ∨ cs.head? = some ']' then some ([], cs) else arguments? read count cs

/-- The items before a closing bracket, none of them a keyword. -/
def expressions? (count : Nat) (cs : List Char) : Option (List Expr × List Char) := do
  let (items, rest) ← enclosed? read count cs
  (items.mapM Argument.positional?).map (·, rest)

end

/-- What follows a character that has to come next. -/
def after? (c : Char) : List Char → Option (List Char)
  | d :: cs => if d = c then some cs else none
  | [] => none

/-! ### Expressions -/

section

variable (read : List Char → Option (Expr × List Char)) (count : Nat)

def text? (delimiter : Char) (cs : List Char) : Option (Expr × List Char) := do
  let (body, rest) ← literal? delimiter cs
  let t ← (Escape.decode false body).toOption
  some (.constant (.text t), rest)

/-- The end of a tuple, with a comma before it if there is one item. -/
def tupleEnd? (xs : List Expr) (cs : List Char) : Option (Expr × List Char) := do
  let rest ← after? ')' (← if xs.length = 1 then after? ',' cs else some cs)
  some (.tuple xs, rest)

/-- An expression without trailers. -/
def atom? : List Char → Option (Expr × List Char)
  | [] => none
  | c :: cs =>
    if c = '"' ∨ c = '\'' then text? c cs
    else if c = '(' then do
      let (xs, rest) ← expressions? read count cs
      tupleEnd? xs rest
    else if c = '[' then do
      let (xs, rest) ← expressions? read count cs
      (after? ']' rest).map (.list xs, ·)
    else some (ofWord ((c :: cs).takeWhile isWordChar), (c :: cs).dropWhile isWordChar)

end

/-- Takes trailers, `count` at most. -/
def trailers? (read : List Char → Option (Expr × List Char)) :
    (count : Nat) → Expr → List Char → Option (Expr × List Char)
  | m + 1, x, '.' :: cs =>
    trailers? read m (.attribute x (String.ofList (cs.takeWhile isWordChar))) (cs.dropWhile isWordChar)
  | m + 1, x, '(' :: cs => do
    let (items, rest) ← enclosed? read m cs
    let rest ← after? ')' rest
    trailers? read m (.call x (items.filterMap Argument.positional?) (items.filterMap Argument.keyword?)) rest
  | m + 1, x, '[' :: cs => do
    let (xs, rest) ← expressions? read m cs
    let rest ← after? ']' rest
    trailers? read m (.subscript x xs) rest
  | _, x, cs => some (x, cs)

/-- The longest expression at the front, nested `depth` deep at most, and what follows it. -/
def expr? : (depth : Nat) → List Char → Option (Expr × List Char)
  | 0, _ => none
  | n + 1, cs => do
    let (x, rest) ← atom? (expr? n) n cs
    trailers? (expr? n) n x rest

end Reader

/-- Reads the whole of a text as one expression. -/
def Expr.ofText? (s : String) : Option Expr := do
  let (x, rest) ← Reader.expr? s.toList.length s.toList
  if rest.isEmpty then some x else none

end Code
end TypedErrors
