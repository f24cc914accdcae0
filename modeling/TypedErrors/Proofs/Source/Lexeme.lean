import TypedErrors.Source.Scanner

/-! # Lexemes

A source as it is spelled: lexemes, with gaps of space and comments around them. A gap may be empty where the text
that follows a lexeme does not run on in it (`Ends`). -/

namespace TypedErrors

open Scan

/-- A token without its place. -/
structure Lexeme where
  terminal : Terminal
  text : String
deriving DecidableEq

/-- The lexeme of a symbol or word. -/
def Terminal.lexeme (t : Terminal) : Lexeme := ⟨t, ((t.symbol? <|> t.word?).getD "")⟩

def Lexeme.name (s : String) : Lexeme := ⟨.name, s⟩

/-! ### Gaps -/

/-- Space and comments. A line comment does not start with `///`, and a block comment ends at the first `*/`. -/
inductive Gap : List Char → Prop
  | nil : Gap []
  | space {c : Char} {cs : List Char} (hc : isSpace c = true) (h : Gap cs) : Gap (c :: cs)
  | line {body cs : List Char} (hbody : '\n' ∉ body) (hdoc : body.head? ≠ some '/') (h : Gap cs) :
      Gap ('/' :: '/' :: (body ++ '\n' :: cs))
  | block {body cs : List Char} (hbody : ¬ ['*', '/'] <:+: body) (h : Gap cs) :
      Gap ('/' :: '*' :: (body ++ '*' :: '/' :: cs))

/-! ### Classes of text -/

inductive NameText : List Char → Prop
  | mk {c : Char} {cs : List Char} (hc : isNameStart c = true) (hcs : ∀ d ∈ cs, isNamePart d = true) :
      NameText (c :: cs)

def isNameText : List Char → Bool
  | c :: cs => isNameStart c && cs.all isNamePart
  | [] => false

theorem nameText_iff {cs : List Char} : NameText cs ↔ isNameText cs = true := by
  constructor
  · rintro ⟨hc, hcs⟩
    rw [isNameText, hc, List.all_eq_true.mpr hcs]
    rfl
  · intro h
    cases cs with
    | nil => cases h
    | cons c cs =>
      obtain ⟨hc, hcs⟩ := Bool.and_eq_true_iff.mp h
      exact .mk hc (List.all_eq_true.mp hcs)

instance (cs : List Char) : Decidable (NameText cs) := decidable_of_iff _ nameText_iff.symm

def reservedWords : List String :=
  ["pub", "struct", "enum", "union", "use", "in", "as", "crate", "self", "super"]

/-- An identifier. -/
structure Identifier (s : String) : Prop where
  text : NameText s.toList
  notReserved : s ∉ reservedWords

/-- The inside of a string: a backslash stands before any character of its line. -/
inductive StringBody : List Char → Prop
  | nil : StringBody []
  | plain {c : Char} {cs : List Char} (hquote : c ≠ '"') (hslash : c ≠ '\\') (hline : c ≠ '\n')
      (h : StringBody cs) : StringBody (c :: cs)
  | escape {c : Char} {cs : List Char} (hline : c ≠ '\n') (h : StringBody cs) : StringBody ('\\' :: c :: cs)

inductive QuotedText : List Char → Prop
  | mk {cs : List Char} (h : StringBody cs) : QuotedText ('"' :: (cs ++ ['"']))

/-- A quoted text, perhaps with a prefix. -/
inductive StringText : List Char → Prop
  | quoted {cs : List Char} (h : QuotedText cs) : StringText cs
  | raw {cs : List Char} (h : QuotedText cs) : StringText ('r' :: cs)

inductive CharText : List Char → Prop
  | plain {c : Char} (hquote : c ≠ '\'') (hslash : c ≠ '\\') (hline : c ≠ '\n') : CharText ['\'', c, '\'']
  | escape {cs : List Char} (hne : cs ≠ []) (hcs : ∀ c ∈ cs, c ≠ '\'' ∧ c ≠ '\n') :
      CharText ('\'' :: '\\' :: (cs ++ ['\'']))

/-- Digits and underscores, a digit first. -/
inductive DigitsText : List Char → Prop
  | mk {c : Char} {cs : List Char} (hc : c.isDigit = true) (hcs : ∀ d ∈ cs, isDigitPart d = true) :
      DigitsText (c :: cs)

inductive IntText : List Char → Prop
  | hex {x : Char} {cs : List Char} (hx : x = 'x' ∨ x = 'X') (hne : cs ≠ []) (hcs : ∀ d ∈ cs, isHexPart d = true) :
      IntText ('0' :: x :: cs)
  | octal {x : Char} {cs : List Char} (hx : x = 'o' ∨ x = 'O') (hne : cs ≠ [])
      (hcs : ∀ d ∈ cs, (('0' ≤ d && d ≤ '7') || d == '_') = true) : IntText ('0' :: x :: cs)
  | binary {x : Char} {cs : List Char} (hx : x = 'b' ∨ x = 'B') (hne : cs ≠ [])
      (hcs : ∀ d ∈ cs, (d == '0' || d == '1' || d == '_') = true) : IntText ('0' :: x :: cs)
  | decimal {cs : List Char} (h : DigitsText cs) : IntText cs

inductive ExponentText : List Char → Prop
  | mk {e : Char} {sign cs : List Char} (he : e = 'e' ∨ e = 'E') (hsign : sign = [] ∨ sign = ['+'] ∨ sign = ['-'])
      (hne : cs ≠ []) (hcs : ∀ d ∈ cs, d.isDigit = true) : ExponentText (e :: (sign ++ cs))

inductive FloatText : List Char → Prop
  | fraction {whole part exponent : List Char} (hwhole : DigitsText whole) (hpart : DigitsText part)
      (hexponent : exponent = [] ∨ ExponentText exponent) : FloatText (whole ++ '.' :: (part ++ exponent))
  | exponent {whole exponent : List Char} (hwhole : DigitsText whole) (hexponent : ExponentText exponent) :
      FloatText (whole ++ exponent)

inductive DocText : List Char → Prop
  | mk {body : List Char} (hbody : '\n' ∉ body) : DocText ('/' :: '/' :: '/' :: body)

/-- A text of the terminal. -/
def Terminal.Spells : Terminal → List Char → Prop
  | .name, cs => NameText cs
  | .string, cs => StringText cs
  | .char, cs => CharText cs
  | .int, cs => IntText cs
  | .float, cs => FloatText cs
  | .doc, cs => DocText cs
  | t, cs => ((t.symbol? <|> t.word?).map String.toList) = some cs

/-- A string with the prefix. -/
def Lexeme.IsRaw (l : Lexeme) : Prop := l.terminal = .string ∧ l.text.toList.head? = some 'r'

instance (l : Lexeme) : Decidable l.IsRaw :=
  inferInstanceAs (Decidable (l.terminal = .string ∧ l.text.toList.head? = some 'r'))

/-! ### Texts of lexemes -/

/-- A text that does not go on with a name. -/
def NotName (rest : List Char) : Prop := ∀ c ∈ rest.head?, isNamePart c = false

/-- What follows a token of the terminal does not run on in it. -/
def Terminal.Ends : Terminal → List Char → Prop
  | .doc, rest => ∀ c ∈ rest.head?, c = '\n'
  | .colon, rest => rest.head? ≠ some ':'
  | .int, rest => NotName rest ∧ ∀ c cs, rest = '.' :: c :: cs → c.isDigit = false
  | .float, rest | .name, rest => NotName rest
  | t, rest => t.isWord = true → NotName rest

/-- A text of lexemes, with gaps before, between and after them. The last line comment need not end. -/
inductive Spelled : List Lexeme → List Char → Prop
  | nil {gap : List Char} (hgap : Gap gap) : Spelled [] gap
  | comment {gap body : List Char} (hgap : Gap gap) (hbody : '\n' ∉ body) (hdoc : body.head? ≠ some '/') :
      Spelled [] (gap ++ '/' :: '/' :: body)
  | cons {gap rest : List Char} {l : Lexeme} {ls : List Lexeme} (hgap : Gap gap)
      (hl : l.terminal.Spells l.text.toList) (hends : l.terminal.Ends rest) (h : Spelled ls rest) :
      Spelled (l :: ls) (gap ++ (l.text.toList ++ rest))

end TypedErrors
