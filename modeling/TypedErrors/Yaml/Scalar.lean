import TypedErrors.Yaml.Date
import TypedErrors.Yaml.Problem

/-! # Types of scalars

A plain scalar is a truth value, a number, nothing or a date if its text has the form of one, and a text
otherwise; a quoted one is always a text. -/

namespace TypedErrors
namespace Yaml

inductive Scalar where
  | null
  | bool (b : Bool)
  | int (n : Int)
  | float (x : Binary64)
  | text (t : Text)
  /-- Of a type of its own, such as a date. -/
  | other (t : Text)
deriving DecidableEq, Hashable, Inhabited

namespace Scalar

def bool? (cs : List Char) : Option Bool :=
  let s := String.ofList cs
  if s = "true" ∨ s = "True" ∨ s = "TRUE" then some true
  else if s = "false" ∨ s = "False" ∨ s = "FALSE" then some false
  else none

def isNull (cs : List Char) : Bool :=
  let s := String.ofList cs
  s == "" || s == "~" || s == "null" || s == "Null" || s == "NULL"

def isDigitOrUnderscore (c : Char) : Bool := c.isDigit || c == '_'

/-- An exponent, or nothing where none is asked for. -/
def isExponent (isNeeded needsSign : Bool) : List Char → Bool
  | [] => !isNeeded
  | e :: cs =>
    let (signed, ds) := match cs with
      | '+' :: r => (true, r)
      | '-' :: r => (true, r)
      | r => (false, r)
    (e == 'e' || e == 'E') && (signed || !needsSign) && !ds.isEmpty && ds.all Char.isDigit

def infinities : List String := [".inf", ".Inf", ".INF"]

/-- Digits with a point or an exponent; after a leading point the exponent needs a sign. -/
def isFloat (cs : List Char) : Bool :=
  let (_, body) := Numeral.sign cs
  let word := String.ofList body
  infinities.contains word || [".nan", ".NaN", ".NAN"].contains (String.ofList cs) ||
    match body with
    | '.' :: r =>
      let (fraction, rest) := r.span isDigitOrUnderscore
      !fraction.isEmpty && isExponent false true rest
    | c :: _ =>
      c.isDigit && match body.dropWhile isDigitOrUnderscore with
        | '.' :: r => isExponent false false (r.dropWhile isDigitOrUnderscore)
        | r => isExponent true false r
    | [] => false

/-- Digits of a base after its mark. -/
def isBased (isDigit : Char → Bool) (ds : List Char) : Bool :=
  !ds.isEmpty && ds.all fun c => c == '_' || isDigit c

def isInt (cs : List Char) : Bool :=
  let (_, body) := Numeral.sign cs
  let startsWell := match cs with
    | c :: _ => c == '+' || c == '-' || c.isDigit
    | [] => false
  startsWell && (isBased Char.isDigit body || match body with
    | '0' :: 'b' :: ds => isBased (fun c => c == '0' || c == '1') ds
    | '0' :: 'o' :: ds => isBased (fun c => '0' ≤ c && c ≤ '7') ds
    | '0' :: 'x' :: ds => isBased (fun c => (Numeral.digitValue? 16 c).isSome) ds
    | _ => false)

def intBase : List Char → Nat × List Char
  | '0' :: 'b' :: ds => (2, ds)
  | '0' :: 'o' :: ds => (8, ds)
  | '0' :: 'x' :: ds => (16, ds)
  | ds => (10, ds)

def withoutUnderscores (cs : List Char) : List Char := cs.filter (· != '_')

def ofInt (cs : List Char) : Except ValueFault Scalar :=
  let (negative, body) := Numeral.sign (withoutUnderscores cs)
  let (base, ds) := intBase body
  if ds.isEmpty then .error .noDigits
  else if base = 10 ∧ NumeralError.digitLimit < ds.length then
    .error (.numeral (.tooManyDigits ds.length))
  else
    let n : Int := Numeral.value base ds
    .ok (.int (if negative then -n else n))

def ofFloat (cs : List Char) : Except ValueFault Scalar :=
  let (negative, body) := Numeral.sign ((withoutUnderscores cs).map Char.toLower)
  let signed (x : Binary64) : Scalar := .float (if negative then x.neg else x)
  let word := String.ofList body
  if word = ".inf" then .ok (signed .infinity)
  else if word = ".nan" then .ok (.float .nan)
  else match Numeral.readFloat (Text.ofChars body) with
    | .ok x => .ok (signed x)
    | .error e => .error (.numeral e)

/-- The value of a plain scalar. -/
def ofPlain (t : Text) : Except ValueFault Scalar :=
  match t.chars? with
  | none => .ok (.text t)
  | some cs =>
    match bool? cs with
    | some b => .ok (.bool b)
    | none =>
      if isFloat cs then ofFloat cs
      else if isInt cs then ofInt cs
      else if isNull cs then .ok .null
      else match Date.read? cs with
        | some (d, time?) =>
          match d.fault? <|> time?.bind Date.Time.fault? with
          | some m => .error (.date m)
          | none => .ok (.other t)
        | none => .ok (if cs = ['='] then .other t else .text t)

/-- The value of a scalar: a tag other than those of texts makes it something else. -/
def ofNode (t : Text) (isPlain : Bool) (tag? : Option String) : Except ValueFault Scalar :=
  match tag? with
  | none => if isPlain then ofPlain t else .ok (.text t)
  | some tag =>
    if tag = "!" then ofPlain t
    else if tag = "!!str" then .ok (.text t)
    else .ok (.other t)

/-- How a value reads as a text. -/
def toText : Scalar → Text
  | .null => "None"
  | .bool b => if b then "True" else "False"
  | .int n => Text.ofString (toString n)
  | .float x => Text.ofString x.render
  | .text t => t
  | .other t => t

/-- How a value reads inside a collection: texts are quoted. -/
def shown : Scalar → Text
  | .text t => Text.ofString t.display
  | s => s.toText

/-- The integer that a number or a truth value is, if any. -/
def integer? : Scalar → Option Int
  | .bool b => some (if b then 1 else 0)
  | .int n => some n
  | .float x =>
    let (m, e) := x.decompose
    let whole : Option Nat :=
      if 0 ≤ e then some (m * Nat.pow 2 e.toNat)
      else if m % Nat.pow 2 (-e).toNat = 0 then some (m / Nat.pow 2 (-e).toNat) else none
    if x.isNaN || x.isInfinite then none
    else whole.map fun n => if x.isNegative then -(n : Int) else n
  | _ => none

/-- What a scalar is as a key: numbers count by their value, and not-a-number is never equal to a key. -/
def identity? (s : Scalar) : Option Scalar :=
  match s.integer? with
  | some n => some (.int n)
  | none =>
    match s with
    | .float x => if x.isNaN then none else some s
    | _ => some s

end Scalar
end Yaml
end TypedErrors
