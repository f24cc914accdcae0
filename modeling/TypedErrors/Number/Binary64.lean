/-! # Binary floating point

A number of the binary interchange format of 64 bits is its bit pattern. `ofDecimal` rounds a decimal
to the nearest number, a tie to the even pattern; `digits` goes back with as few digits as possible. -/

namespace TypedErrors

structure Binary64 where
  bits : UInt64
deriving DecidableEq, Hashable, Inhabited

namespace Binary64

def infinity : Binary64 := ⟨0x7ff0000000000000⟩

def nan : Binary64 := ⟨0x7ff8000000000000⟩

def isNegative (x : Binary64) : Bool := Nat.pow 2 63 ≤ x.bits.toNat

/-- The bits below the sign. -/
def magnitude (x : Binary64) : Nat := x.bits.toNat % Nat.pow 2 63

def isNaN (x : Binary64) : Bool := infinity.magnitude < x.magnitude

def isInfinite (x : Binary64) : Bool := x.magnitude = infinity.magnitude

def neg (x : Binary64) : Binary64 := ⟨x.bits ^^^ 0x8000000000000000⟩

/-- The integer nearest to `num / den`, a tie to the even one. -/
def roundHalfEven (num den : Nat) : Nat :=
  let q := num / den
  let r := num % den
  if 2 * r < den then q else if den < 2 * r then q + 1 else q + q % 2

/-- The quotient `num / (den * 2 ^ q)` as a fraction. -/
def scaleDown (num den : Nat) (q : Int) : Nat × Nat :=
  if 0 ≤ q then (num, den * Nat.pow 2 q.toNat) else (num * Nat.pow 2 (-q).toNat, den)

/-- The pattern nearest to the positive fraction `num / den`. -/
def ofFraction (num den : Nat) : Binary64 :=
  let least : Int := -1074
  let low : Int := max least ((num.log2 : Int) - (den.log2 : Int) - 53)
  let (n, d) := scaleDown num den low
  let q := if Nat.pow 2 53 * d ≤ n then low + 1 else low
  let (n, d) := scaleDown num den q
  let magnitude : Nat := roundHalfEven n d + (q + 1074).toNat * Nat.pow 2 52
  if infinity.magnitude ≤ magnitude then infinity else ⟨.ofNat magnitude⟩

/-- The number nearest to `mantissa * 10 ^ exponent`; far out of range nothing is computed. -/
def ofDecimal (mantissa : Nat) (exponent : Int) : Binary64 :=
  if mantissa = 0 then ⟨0⟩
  else
    let size : Int := exponent + ((mantissa.log2 / 3 : Nat) : Int)
    let least : Int := exponent + ((mantissa.log2 / 4 : Nat) : Int)
    if 400 < least then infinity
    else if size < -400 then ⟨0⟩
    else if 0 ≤ exponent then ofFraction (mantissa * Nat.pow 10 exponent.toNat) 1
    else ofFraction mantissa (Nat.pow 10 (-exponent).toNat)

/-- Mantissa and binary exponent of a finite number. -/
def decompose (x : Binary64) : Nat × Int :=
  let field : Nat := x.magnitude / Nat.pow 2 52
  let fraction : Nat := x.magnitude % Nat.pow 2 52
  if field = 0 then (fraction, -1074) else (Nat.pow 2 52 + fraction, (field : Int) - 1075)

/-- Raises `e` while `10 ^ (e + 1) ≤ num / den`, at most `fuel` times. -/
def raiseExponent (num den : Nat) : (fuel : Nat) → Int → Int
  | 0, e => e
  | f + 1, e =>
    let reached :=
      if 0 ≤ e + 1 then den * Nat.pow 10 (e + 1).toNat ≤ num else den ≤ num * Nat.pow 10 (-(e + 1)).toNat
    if reached then raiseExponent num den f (e + 1) else e

/-- The decimal exponent of a positive fraction: the place of its first digit. -/
def decimalExponent (num den : Nat) : Int :=
  let bits : Int := (num.log2 : Int) - den.log2
  raiseExponent num den 4 ((bits - 1) * 30103 / 100000 - 1)

/-- Both neighbours of the number `v` on the grid of multiples of `10 ^ k`, as far as they read back:
all quantities are counted in units of which `10 ^ k` has `unit.1` and one has `unit.2`. -/
def gridHit (lo v hi : Nat) (closed : Bool) (unit : Nat × Nat) : Option Nat :=
  let below := v * unit.2 / unit.1
  let inside (c : Nat) : Bool :=
    if closed then lo * unit.2 ≤ c * unit.1 && c * unit.1 ≤ hi * unit.2
    else lo * unit.2 < c * unit.1 && c * unit.1 < hi * unit.2
  let down := v * unit.2 - below * unit.1
  let up := (below + 1) * unit.1 - v * unit.2
  match inside below, inside (below + 1) with
  | true, true => some (if down < up then below else if up < down then below + 1 else below + below % 2)
  | true, false => some below
  | false, true => some (below + 1)
  | false, false => none

/-- The first grid with a hit, from `count` digits on. -/
def firstHit (lo v hi den : Nat) (closed : Bool) (e : Int) : (fuel count : Nat) → Nat × Int
  | 0, _ => (v / den, 0)
  | f + 1, count =>
    let k : Int := e - count + 1
    let unit := if 0 ≤ k then (den * Nat.pow 10 k.toNat, 1) else (den, Nat.pow 10 (-k).toNat)
    match gridHit lo v hi closed unit with
    | some c => (c, k)
    | none => firstHit lo v hi den closed e f (count + 1)

/-- The shortest decimal `c * 10 ^ k` that reads back as the finite nonzero number, and of those
with so many digits the nearest. -/
def digits (x : Binary64) : Nat × Int :=
  let (m, q) : Nat × Int := x.decompose
  let narrow := m = Nat.pow 2 52 ∧ -1074 < q
  let scale (n : Nat) : Nat := if 2 ≤ q then n * Nat.pow 2 (q - 2).toNat else n
  let den : Nat := if 2 ≤ q then 1 else Nat.pow 2 (2 - q).toNat
  let v := scale (4 * m)
  firstHit (scale (4 * m - if narrow then 1 else 2)) v (scale (4 * m + 2)) den (m % 2 = 0)
    (decimalExponent v den) 17 1

/-- Digits with the point after the first `point` of them; at least one digit on each side. -/
def positional (ds : List Char) (point : Int) : List Char :=
  if point ≤ 0 then '0' :: '.' :: List.replicate (-point).toNat '0' ++ ds
  else
    let n := point.toNat
    if ds.length ≤ n then ds ++ List.replicate (n - ds.length) '0' ++ ['.', '0']
    else ds.take n ++ '.' :: ds.drop n

/-- Scientific notation; the exponent has a sign and at least two digits. -/
def scientific (ds : List Char) (e : Int) : List Char :=
  let mantissa := match ds with
    | [] => []
    | [d] => [d]
    | d :: rest => d :: '.' :: rest
  let size := (toString e.natAbs).toList
  mantissa ++ 'e' :: (if e < 0 then '-' else '+') ::
    (if size.length < 2 then '0' :: size else size)

/-- The shortest text that reads back: positional from `1e-4` up to `1e16`, else scientific. -/
def render (x : Binary64) : String :=
  let sign := if x.isNegative then "-" else ""
  if x.isNaN then "nan"
  else if x.isInfinite then sign ++ "inf"
  else if x.magnitude = 0 then sign ++ "0.0"
  else
    let (c, k) := x.digits
    let ds := (toString c).toList
    let e := k + ds.length - 1
    sign ++ String.ofList (if -4 ≤ e ∧ e < 16 then positional ds (e + 1) else scientific ds e)

end Binary64
end TypedErrors
