import TypedErrors.Number.Binary64
import TypedErrors.Text.Blank
import TypedErrors.Text.Digit
import TypedErrors.Text.Quoted

/-! # Reading numerals

Integers and floating-point numbers as texts: decimal digits of any script, blanks around, a sign,
and single underscores between digits. -/

namespace TypedErrors

/-- Why a text is no number, or a number no text. -/
inductive NumeralError where
  | integer (text : Text)
  | float (text : Text)
  | tooManyDigits (count : Nat)
  | tooLongToWrite
deriving DecidableEq

namespace NumeralError

/-- The most decimal digits an integer may have when it is read or written. -/
def digitLimit : Nat := 4300

def message : NumeralError → Text
  | .integer t =>
    "invalid literal for int() with base 10: " ++ ((Text.ofString t.display).take 200)
  | .float t => "could not convert string to float: " ++ (t.display : Text)
  | .tooManyDigits n =>
    s!"Exceeds the limit ({digitLimit} digits) for integer string conversion: value has {n} digits; use sys.set_int_max_str_digits() to increase the limit"
  | .tooLongToWrite =>
    s!"Exceeds the limit ({digitLimit} digits) for integer string conversion; use sys.set_int_max_str_digits() to increase the limit"

end NumeralError

namespace Numeral

/-- Decimal digits become ASCII and blanks spaces; nothing else beyond ASCII is a numeral. -/
def plain? (t : Text) : Option (List Char) :=
  t.mapM fun
    | .surrogate _ => none
    | .char c =>
      if c.toNat < 0x80 then some c
      else if isBlank c then some ' '
      else (Digit.value? c).map fun d => Char.ofNat (0x30 + d)

def isSpace (c : Char) : Bool := c == ' ' || (9 ≤ c.toNat && c.toNat ≤ 13)

def trim (cs : List Char) : List Char :=
  ((cs.dropWhile isSpace).reverse.dropWhile isSpace).reverse

/-- A leading sign taken off: whether it was a minus, and the rest. -/
def sign : List Char → Bool × List Char
  | '-' :: cs => (true, cs)
  | '+' :: cs => (false, cs)
  | cs => (false, cs)

def digitValue? (base : Nat) (c : Char) : Option Nat :=
  let d :=
    if c.isDigit then c.toNat - 0x30
    else if 'a' ≤ c ∧ c ≤ 'z' then c.toNat - 0x57
    else if 'A' ≤ c ∧ c ≤ 'Z' then c.toNat - 0x37
    else 36
  if d < base then some d else none

/-- The longest front of digits and underscores, and the rest. -/
def spanDigits (base : Nat) (cs : List Char) : List Char × List Char :=
  cs.span fun c => c == '_' || (digitValue? base c).isSome

/-- Underscores stand singly between digits. -/
def wellSpaced : List Char → Bool
  | [] => false
  | '_' :: _ => false
  | [_] => true
  | _ :: '_' :: cs => wellSpaced cs
  | _ :: c :: cs => wellSpaced (c :: cs)

def value (base : Nat) (ds : List Char) : Nat :=
  ds.foldl (fun n c => match digitValue? base c with
    | some d => n * base + d
    | none => n) 0

/-- The prefix of a literal that fixes its base. -/
def literalBase : List Char → Nat × List Char
  | '0' :: c :: cs =>
    let skip := match cs with
      | '_' :: r => r
      | r => r
    if c = 'x' ∨ c = 'X' then (16, skip)
    else if c = 'o' ∨ c = 'O' then (8, skip)
    else if c = 'b' ∨ c = 'B' then (2, skip)
    else (10, '0' :: c :: cs)
  | cs => (10, cs)

/-- Reads an integer without its sign. Only decimal digits are counted against the limit. -/
def magnitude? (base : Nat) (cs : List Char) : Except (Option Nat) Nat :=
  let (ds, rest) := spanDigits base cs
  let count := ds.countP (· ≠ '_')
  if !wellSpaced ds then .error none
  else if base = 10 ∧ NumeralError.digitLimit < count then .error (some count)
  else if rest ≠ [] then .error none
  else .ok (value base ds)

def failure (t : Text) : Option Nat → NumeralError
  | some n => .tooManyDigits n
  | none => .integer t

/-- Reads a decimal integer. -/
def readInteger (t : Text) : Except NumeralError Int :=
  match plain? t with
  | none => .error (.integer t)
  | some cs =>
    let (negative, body) := sign (trim cs)
    match magnitude? 10 body with
    | .ok n => .ok (if negative then -(n : Int) else n)
    | .error e => .error (failure t e)

/-- Reads an integer as written in a literal: a prefix may fix the base, and a decimal that starts
with zero is zero. -/
def readPrefixed? (t : Text) : Option Int :=
  (plain? t).bind fun cs =>
    let (negative, body) := sign (trim cs)
    let (base, ds) := literalBase body
    match magnitude? base ds with
    | .ok n =>
      if base = 10 ∧ ds.head? = some '0' ∧ n ≠ 0 then none
      else some (if negative then -(n : Int) else n)
    | .error _ => none

/-- The value of an integer literal: by its prefix, else as a decimal without its underscores. -/
def readLiteral (t : Text) : Except NumeralError Int :=
  match readPrefixed? t with
  | some n => .ok n
  | none => readInteger (t.filter (· ≠ .char '_'))

/-- Underscores stand only between digits, and go. -/
def dropUnderscores? (previous : Char) : List Char → Option (List Char)
  | [] => if previous = '_' then none else some []
  | c :: cs =>
    if c = '_' then
      if previous.isDigit then dropUnderscores? '_' cs else none
    else if previous = '_' ∧ !c.isDigit then none
    else (dropUnderscores? c cs).map (c :: ·)

/-- Reads `digits [. digits] [e [sign] digits]` with a digit before the exponent. -/
def readDecimal? (cs : List Char) : Option Binary64 :=
  let (whole, rest) := cs.span Char.isDigit
  let (fraction, rest) := match rest with
    | '.' :: r => r.span Char.isDigit
    | r => ([], r)
  let ds := whole ++ fraction
  let number (e : Int) : Option Binary64 := some (.ofDecimal (value 10 ds) (e - fraction.length))
  if ds.isEmpty then none
  else match rest with
    | [] => number 0
    | c :: r =>
      if c = 'e' ∨ c = 'E' then
        let (negative, es) := sign r
        if es.isEmpty || !es.all Char.isDigit then none
        else
          let e := value 10 es
          number (if negative then -(e : Int) else e)
      else none

/-- Reads a floating-point number, infinities and not-a-number among them. -/
def readFloat (t : Text) : Except NumeralError Binary64 :=
  let read? : Option Binary64 := do
    let cs ← plain? t
    let (negative, body) := sign (← dropUnderscores? ' ' (trim cs))
    let word := String.ofList (body.map Char.toLower)
    let x ←
      if word = "inf" ∨ word = "infinity" then some .infinity
      else if word = "nan" then some .nan
      else readDecimal? body
    return if negative then x.neg else x
  match read? with
  | some x => .ok x
  | none => .error (.float t)

/-- The decimal text of an integer, if it is not too long. -/
def write (n : Int) : Except NumeralError String :=
  if Nat.pow 10 NumeralError.digitLimit ≤ n.natAbs then .error .tooLongToWrite else .ok (toString n)

end Numeral
end TypedErrors
