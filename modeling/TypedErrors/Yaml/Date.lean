import TypedErrors.Number.Numeral

/-! # Dates

Plain scalars of the form `year-month-day`, with or without a time, are no texts. -/

namespace TypedErrors
namespace Yaml
namespace Date

/-- Takes between `least` and `most` digits, as many as there are, and gives their value. -/
def digits? (least most : Nat) (cs : List Char) : Option (Nat × List Char) :=
  let ds := (cs.takeWhile Char.isDigit).take most
  if ds.length < least then none else some (Numeral.value 10 ds, cs.drop ds.length)

/-- Takes one character. -/
def mark? (c : Char) : List Char → Option (List Char)
  | [] => none
  | x :: xs => if x = c then some xs else none

structure Day where
  year : Nat
  month : Nat
  day : Nat
deriving DecidableEq

structure Time where
  hour : Nat
  minute : Nat
  second : Nat
deriving DecidableEq

/-- Takes a day whose month and day have between `least` and two digits. -/
def day? (least : Nat) (cs : List Char) : Option (Day × List Char) := do
  let (year, cs) ← digits? 4 4 cs
  let (month, cs) ← digits? least 2 (← mark? '-' cs)
  let (day, cs) ← digits? least 2 (← mark? '-' cs)
  return (⟨year, month, day⟩, cs)

def isSpace (c : Char) : Bool := c == ' ' || c == '\t'

/-- Whether this is a zone, or nothing. -/
def isZone (cs : List Char) : Bool :=
  let zone := cs.dropWhile isSpace
  let hours (cs : List Char) : Bool :=
    match digits? 1 2 cs with
    | some (_, []) => true
    | some (_, r) => ((mark? ':' r).bind (digits? 2 2)).any (·.2.isEmpty)
    | none => false
  cs.isEmpty || zone == ['Z'] ||
    match zone with
    | '+' :: r => hours r
    | '-' :: r => hours r
    | _ => false

/-- Reads a time after its day. -/
def time? (cs : List Char) : Option Time := do
  let gap := cs.takeWhile isSpace
  let start ← match cs with
    | 'T' :: r => some r
    | 't' :: r => some r
    | _ => if gap.isEmpty then none else some (cs.drop gap.length)
  let (hour, cs) ← digits? 1 2 start
  let (minute, cs) ← digits? 2 2 (← mark? ':' cs)
  let (second, cs) ← digits? 2 2 (← mark? ':' cs)
  let zone := match cs with
    | '.' :: r => r.dropWhile Char.isDigit
    | r => r
  if isZone zone then some ⟨hour, minute, second⟩ else none

def read? (cs : List Char) : Option (Day × Option Time) :=
  match day? 2 cs with
  | some (d, []) => some (d, none)
  | _ => do
    let (d, rest) ← day? 1 cs
    return (d, some (← time? rest))

def monthLength (d : Day) : Nat :=
  if d.month = 2 then
    if d.year % 4 = 0 ∧ (d.year % 100 ≠ 0 ∨ d.year % 400 = 0) then 29 else 28
  else if d.month = 4 ∨ d.month = 6 ∨ d.month = 9 ∨ d.month = 11 then 30 else 31

/-- What is out of range in a day. -/
def Day.fault? (d : Day) : Option String :=
  if d.year = 0 then some "year 0 is out of range"
  else if d.month = 0 ∨ 12 < d.month then some "month must be in 1..12"
  else if d.day = 0 ∨ monthLength d < d.day then some "day is out of range for month"
  else none

/-- What is out of range in a time. -/
def Time.fault? (t : Time) : Option String :=
  if 23 < t.hour then some "hour must be in 0..23"
  else if 59 < t.minute then some "minute must be in 0..59"
  else if 59 < t.second then some "second must be in 0..59"
  else none

end Date
end Yaml
end TypedErrors
