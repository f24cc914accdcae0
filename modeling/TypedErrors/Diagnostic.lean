import TypedErrors.Number.Numeral
import TypedErrors.Span
import TypedErrors.Text.Similar

/-! # Diagnostics

What is reported about a source: a code, a message, the place and the declaration it belongs to, and
suggestions. The place is filled in by whoever knows it first; once set it stays. -/

namespace TypedErrors

inductive ErrorCode where
  | grammarError
  | unexpectedType
  | unexpectedLiteralType
  | unsupportedFormat
  | unknownValue
  | missingField
  | unknownField
  | unsupportedShape
  | unresolvedFieldReference
  | invalidFormat
  | duplicateName
deriving DecidableEq, Inhabited

namespace ErrorCode

def name : ErrorCode → String
  | .grammarError => "GRAMMAR_ERROR"
  | .unexpectedType => "UNEXPECTED_TYPE"
  | .unexpectedLiteralType => "UNEXPECTED_LITERAL_TYPE"
  | .unsupportedFormat => "UNSUPPORTED_FORMAT"
  | .unknownValue => "UNKNOWN_VALUE"
  | .missingField => "MISSING_FIELD"
  | .unknownField => "UNKNOWN_FIELD"
  | .unsupportedShape => "UNSUPPORTED_SHAPE"
  | .unresolvedFieldReference => "UNRESOLVED_FIELD_REFERENCE"
  | .invalidFormat => "INVALID_FORMAT"
  | .duplicateName => "DUPLICATE_NAME"

def all : List ErrorCode :=
  [grammarError, unexpectedType, unexpectedLiteralType, unsupportedFormat, unknownValue, missingField,
    unknownField, unsupportedShape, unresolvedFieldReference, invalidFormat, duplicateName]

def ofName? (s : String) : Option ErrorCode := all.find? (·.name == s)

end ErrorCode

structure Diagnostic where
  code : ErrorCode
  message : Text
  path : Option String := none
  span : Option Span := none
  suggestions : List String := []
deriving DecidableEq, Inhabited

namespace Diagnostic

/-- Sets the place, unless it is set. -/
def withSpan (d : Diagnostic) (s : Option Span) : Diagnostic := { d with span := d.span <|> s }

/-- Sets the declaration, unless it is set. -/
def withPath (d : Diagnostic) (p : String) : Diagnostic := { d with path := d.path <|> some p }

/-- `file:line:column: CODE: message`, the declaration and the suggestions after it. -/
def text (d : Diagnostic) : Text :=
  let place := match d.span with
    | some s => s.text
    | none => "<unknown>"
  let owner := match d.path with
    | some p => if p.isEmpty then "" else s!" (in {p})"
    | none => ""
  let hints :=
    if d.suggestions.isEmpty then ""
    else "; did you mean " ++
      ", ".intercalate (d.suggestions.map fun s => (Text.ofString s).display) ++ "?"
  Text.ofString (place ++ ": " ++ d.code.name ++ ": ") ++ d.message ++ Text.ofString (owner ++ hints)

/-- A word set in backquotes. -/
def ticked (t : Text) : Text := .char '\u0060' :: t ++ [.char '\u0060']

def grammar (message : Text) (span : Option Span := none) : Diagnostic :=
  { code := .grammarError, message, span }

def unexpectedType (type : String) : Diagnostic :=
  { code := .unexpectedType, message := "Unexpected type " ++ ticked type }

def unexpectedLiteral (kind : String) : Diagnostic :=
  { code := .unexpectedLiteralType, message := "Unexpected literal type " ++ ticked kind }

def unsupportedFormat (form : String) : Diagnostic :=
  { code := .unsupportedFormat, message := "Unsupported format " ++ ticked form }

def unknownValue (value : Text) : Diagnostic :=
  { code := .unknownValue, message := "Unknown literal value " ++ ticked value }

def missingField (name : String) : Diagnostic :=
  { code := .missingField, message := "Missing field " ++ ticked name }

def unknownField (name : String) (suggestions : List String) : Diagnostic :=
  { code := .unknownField, message := "Unknown field: " ++ ticked name, suggestions }

def unsupportedShape (shape : String) : Diagnostic :=
  { code := .unsupportedShape, message := "Unsupported shape " ++ ticked shape }

def unresolvedReference (reference : Text) (suggestions : List String := []) : Diagnostic :=
  { code := .unresolvedFieldReference, message := "Unknown field: " ++ ticked reference, suggestions }

def invalidFormat (message : Text) : Diagnostic := { code := .invalidFormat, message }

def duplicateName (name owner : String) : Diagnostic :=
  { code := .duplicateName
    message := Text.ofString "Generated name " ++ ticked name ++
      Text.ofString " is already defined by " ++ ticked owner }

end Diagnostic

/-- What ends a whole run without a result: a numeral that cannot be read, or a keyword of generated code
that the call it belongs to takes for its callee. -/
inductive Abort where
  | numeral (e : NumeralError)
  | keyword (name : String)
deriving DecidableEq

def Abort.message : Abort → Text
  | .numeral e => e.message
  | .keyword name => Text.ofString s!"call() got multiple values for argument '{name}'"

/-- Why an attribute or a declaration is refused: a problem that is reported at its place, or one that ends
the whole run. -/
inductive Fault where
  | report (d : Diagnostic)
  | abort (a : Abort)
deriving DecidableEq

namespace Fault

def withSpan (s : Option Span) : Fault → Fault
  | .report d => .report (d.withSpan s)
  | .abort a => .abort a

end Fault

/-- Reports of `x` without a place are given the place `s`. -/
def anchored {α : Type} (s : Option Span) (x : Except Fault α) : Except Fault α :=
  x.mapError (Fault.withSpan s)

end TypedErrors
