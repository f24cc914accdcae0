/-! # Code points

A literal may name a surrogate by its number, so a text is a list of *code points*: characters and
lone surrogates. Source text and generated code are plain strings. -/

namespace TypedErrors

/-- A character, or the surrogate U+D800 + `offset`. -/
inductive CodePoint where
  | char (c : Char)
  | surrogate (offset : Fin 2048)
deriving DecidableEq, Inhabited

namespace CodePoint

def toNat : CodePoint → Nat
  | .char c => c.toNat
  | .surrogate i => 0xD800 + i.val

instance : Hashable CodePoint where
  hash c := hash c.toNat

/-- The code point of a number below 0x110000. -/
def ofNat? (n : Nat) : Option CodePoint :=
  if h : n < 0xD800 then some (.char ⟨.ofNatLT n (by unfold UInt32.size; omega), .inl (by simpa using h)⟩)
  else if h' : n < 0xE000 then some (.surrogate ⟨n - 0xD800, by omega⟩)
  else if h'' : n < 0x110000 then
    some (.char ⟨.ofNatLT n (by unfold UInt32.size; omega), .inr (by simp; omega)⟩)
  else none

def char? : CodePoint → Option Char
  | .char c => some c
  | .surrogate _ => none

end CodePoint

/-- A sequence of code points. -/
abbrev Text := List CodePoint

namespace Text

def ofChars (cs : List Char) : Text := cs.map .char

def ofString (s : String) : Text := ofChars s.toList

/-- The characters of a text without surrogates. -/
def chars? (t : Text) : Option (List Char) := t.mapM CodePoint.char?

def string? (t : Text) : Option String := t.chars?.map String.ofList

end Text

instance : Coe String Text := ⟨Text.ofString⟩

/-- Membership in a table of ranges, ends included. -/
def inRanges (table : List (Nat × Nat)) (n : Nat) : Bool :=
  table.any fun r => r.1 ≤ n && n ≤ r.2

end TypedErrors
