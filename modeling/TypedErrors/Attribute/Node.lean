import TypedErrors.Diagnostic

/-! # Attribute nodes

What an attribute block says: a word, a name with a value, or a name with a list of arguments. -/

namespace TypedErrors

/-- A bare symbol. -/
structure Ident where
  name : String
  span : Option Span := none
deriving DecidableEq, Inhabited

/-- A dotted symbol path. -/
structure SymbolPath where
  segments : List Ident
  span : Option Span := none
deriving DecidableEq, Inhabited

namespace SymbolPath

/-- The segment of a path that has just one. -/
def single? (p : SymbolPath) : Option Ident :=
  match p.segments with
  | [i] => some i
  | _ => none

/-- The path is the single symbol `name`. -/
def isSingle (p : SymbolPath) (name : String) : Bool := (p.single?.map (·.name)) = some name

def parts (p : SymbolPath) : List String := p.segments.map (·.name)

def text (p : SymbolPath) : String := ".".intercalate p.parts

end SymbolPath

/-- A text literal and its place. -/
structure TextLiteral where
  value : Text
  span : Option Span := none
deriving DecidableEq, Inhabited

inductive Literal where
  | string (l : TextLiteral)
  | bool (value : Bool) (span : Option Span)
  | char (value : CodePoint) (span : Option Span)
  | int (value : Int) (digits : String) (span : Option Span)
  | float (value : Binary64) (digits : String) (span : Option Span)
deriving DecidableEq, Inhabited

namespace Literal

def span : Literal → Option Span
  | .string l => l.span
  | .bool _ s | .char _ s | .int _ _ s | .float _ _ s => s

/-- The kind of literal, as messages call it. -/
def kind : Literal → String
  | .string _ => "string"
  | .bool .. => "bool"
  | .char .. => "char"
  | .int .. => "int"
  | .float .. => "float"

end Literal

/-- The right-hand side of `name = value`. -/
inductive AttrValue where
  | path (p : SymbolPath)
  | literal (l : Literal)
deriving DecidableEq, Inhabited

def AttrValue.span : AttrValue → Option Span
  | .path p => p.span
  | .literal l => l.span

mutual

inductive AttrNode where
  | word (path : SymbolPath) (span : Option Span)
  | assign (path : SymbolPath) (value : AttrValue) (span : Option Span)
  | list (path : SymbolPath) (args : List AttrArg) (span : Option Span)

/-- An argument of a list: a literal or a node. -/
inductive AttrArg where
  | literal (l : Literal)
  | node (n : AttrNode)

end

instance : Inhabited AttrNode := ⟨.word default none⟩

namespace AttrNode

def path : AttrNode → SymbolPath
  | .word p _ | .assign p _ _ | .list p _ _ => p

def span : AttrNode → Option Span
  | .word _ s | .assign _ _ s | .list _ _ s => s

end AttrNode

def AttrArg.span : AttrArg → Option Span
  | .literal l => l.span
  | .node n => n.span

end TypedErrors
