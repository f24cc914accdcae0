import TypedErrors.Diagnostic
import TypedErrors.Text.Digit

/-! # Templates

A template is literal text and placeholders, `{name!conversion:spec}`, of which only the braces are
required. A doubled brace stands for itself in the text. A spec runs to the brace that balances, and may
hold placeholders of its own. -/

namespace TypedErrors

inductive Piece where
  | literal (t : Text)
  | placeholder (name : Text) (conversion : Option CodePoint) (spec : Text)
deriving DecidableEq, Inhabited

/-- Why a text is not a template. -/
inductive TemplateError where
  | loneClose
  | loneOpen
  | openInName
  | missingClose
  | missingConversion
  | missingColon
  | unbalancedSpec
deriving DecidableEq

def TemplateError.message : TemplateError → String
  | .loneClose => "Single '\x7d' encountered in format string"
  | .loneOpen => "Single '\x7b' encountered in format string"
  | .openInName => "unexpected '\x7b' in field name"
  | .missingClose => "expected '\x7d' before end of string"
  | .missingConversion => "end of string while looking for conversion specifier"
  | .missingColon => "expected ':' after conversion specifier"
  | .unbalancedSpec => "unmatched '\x7b' in format spec"

namespace Template

/-- Where reading stands: in literal text, in the name of a placeholder (perhaps within brackets), or in a
spec with so many braces open in it. -/
inductive Place where
  | literal
  | name (inBrackets : Bool)
  | spec (name : Text) (conversion : Option CodePoint) (depth : Nat)
deriving DecidableEq

/-- Reads on from a place; `acc` is what was read there, reversed. -/
def pieces : Place → (acc : Text) → Text → Except TemplateError (List Piece)
  | .literal, acc, [] => .ok [.literal acc.reverse]
  | .literal, acc, c :: t =>
    if c = .char '{' then
      match t with
      | [] => .error .loneOpen
      | d :: t' =>
        if d = .char '{' then pieces .literal (d :: acc) t'
        else do return .literal acc.reverse :: (← pieces (.name false) [] (d :: t'))
    else if c = .char '}' then
      match t with
      | [] => .error .loneClose
      | d :: t' => if d = .char '}' then pieces .literal (d :: acc) t' else .error .loneClose
    else pieces .literal (c :: acc) t
  | .name _, _, [] => .error .missingClose
  | .name true, acc, c :: t => pieces (.name (c ≠ .char ']')) (c :: acc) t
  | .name false, acc, c :: t =>
    if c = .char '{' then .error .openInName
    else if c = .char '}' then do
      return .placeholder acc.reverse none [] :: (← pieces .literal [] t)
    else if c = .char ':' then pieces (.spec acc.reverse none 0) [] t
    else if c = .char '!' then
      match t with
      | [] => .error .missingConversion
      | [_] => .error .unbalancedSpec
      | k :: d :: t' =>
        if d = .char '}' then do
          return .placeholder acc.reverse (some k) [] :: (← pieces .literal [] t')
        else if d = .char ':' then pieces (.spec acc.reverse (some k) 0) [] t'
        else .error .missingColon
    else pieces (.name (c = .char '[')) (c :: acc) t
  | .spec .., _, [] => .error .unbalancedSpec
  | .spec name k depth, acc, c :: t =>
    if c = .char '{' then pieces (.spec name k (depth + 1)) (c :: acc) t
    else if c = .char '}' then
      match depth with
      | 0 => do return .placeholder name k acc.reverse :: (← pieces .literal [] t)
      | n + 1 => pieces (.spec name k n) (c :: acc) t
    else pieces (.spec name k depth) (c :: acc) t

/-- The pieces of a template. -/
def parse (t : Text) : Except TemplateError (List Piece) := pieces .literal [] t

/-! ### Positional placeholders

Placeholders are numbered by their names or, when all names are empty, in order of occurrence. Each denotes
an argument, and each argument is denoted. -/

/-- Why a template does not fit its arguments. -/
inductive Misfit where
  | malformed (e : TemplateError)
  | notPositional (name : Text)
  | mixedNumbering
  | noArgument (index count : Nat)
  | unusedArgument (index : Nat)
  | numeral (e : NumeralError)
deriving DecidableEq

/-- The report of a misfit. -/
def Misfit.fault : Misfit → Fault
  | .malformed e =>
    .report (.invalidFormat (Text.ofString ("Invalid description template: " ++ e.message)))
  | .notPositional name =>
    .report (.invalidFormat (Text.ofString "Placeholder \x60\x7b" ++ name ++
      Text.ofString "\x7d\x60 must be positional"))
  | .mixedNumbering =>
    .report (.invalidFormat (Text.ofString "Cannot mix automatic and manual placeholder numbering"))
  | .noArgument index count =>
    .report (.invalidFormat (Text.ofString s!"Placeholder {index} has no argument ({count} given)"))
  | .unusedArgument index =>
    .report (.invalidFormat (Text.ofString s!"Argument {index} is never used in the description"))
  | .numeral e => .abort (.numeral e)

/-- The placeholders seen so far: the styles of numbering among them, the next number in order of
occurrence, and the arguments they denote. -/
structure Numbering where
  automatic : Bool := false
  manual : Bool := false
  next : Nat := 0
  used : List Nat := []
deriving DecidableEq

def isNumber (name : Text) : Bool :=
  !name.isEmpty && name.all fun c => (c.char?.map Digit.isDigit).getD false

/-- Notes that an argument is denoted. -/
def Numbering.denote (s : Numbering) (count index : Nat) : Except Misfit Numbering :=
  if s.automatic && s.manual then .error .mixedNumbering
  else if count ≤ index then .error (.noArgument index count)
  else .ok { s with used := index :: s.used }

/-- Notes a placeholder. -/
def Numbering.place (s : Numbering) (count : Nat) (name : Text) : Except Misfit Numbering :=
  if name.isEmpty then { s with automatic := true, next := s.next + 1 }.denote count s.next
  else if isNumber name then
    match Numeral.readInteger name with
    | .ok n => { s with manual := true }.denote count n.toNat
    | .error e => .error (.numeral e)
  else .error (.notPositional name)

/-- Notes the placeholders of a text, each before those of its spec; `depth` is at least the length of the
text, which bounds how deep specs nest. -/
def number (count : Nat) : (depth : Nat) → Numbering → Text → Except Misfit Numbering
  | 0, s, _ => .ok s
  | d + 1, s, t =>
    match parse t with
    | .error e => .error (.malformed e)
    | .ok ps => ps.foldlM (fun s p =>
      match p with
      | .literal _ => .ok s
      | .placeholder name _ spec => do number count d (← s.place count name) spec) s

/-- Checks that a template is well formed and fits so many arguments. -/
def validate (t : Text) (count : Nat) : Except Misfit Unit := do
  let s ← number count t.length {} t
  match (List.range count).find? (!s.used.contains ·) with
  | some index => .error (.unusedArgument index)
  | none => .ok ()

end Template
end TypedErrors
