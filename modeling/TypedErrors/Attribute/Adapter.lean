import TypedErrors.Attribute.Node
import TypedErrors.Text.Blank
import TypedErrors.Text.Identifier

/-! # Adapters

An adapter extracts a typed value from an attribute node. It has a handler for each form of node and each
kind of literal. A form that is not handled is refused, or passed on to a simpler one: a node to its value
or its arguments, a single argument to its literal or path, a path of one symbol to that symbol. Reports
without a place are placed at the node. -/

namespace TypedErrors

/-- Refuses a form, perhaps at a known place. -/
def refuse {α : Type} (d : Diagnostic) (span : Option Span := none) : Except Fault α :=
  .error (.report (d.withSpan span))

/-- A list without arguments is like the bare word, and one argument stands for itself. -/
def unwrapped {α : Type} (empty : Except Fault α) (arg : AttrArg → Except Fault α) :
    List AttrArg → Except Fault α
  | [] => empty
  | [a] => arg a
  | _ => refuse (.unsupportedFormat "list")

/-- The handlers of a type of value; each default refers to the handlers before it. -/
structure Adapter (α : Type) where
  empty : Except Fault α := refuse (.unsupportedFormat "empty")
  string : TextLiteral → Except Fault α := fun l => refuse (.unexpectedType "string") l.span
  bool : Bool → Option Span → Except Fault α := fun _ s => refuse (.unexpectedType "bool") s
  char : CodePoint → Option Span → Except Fault α := fun _ s => refuse (.unexpectedType "char") s
  int : Int → String → Option Span → Except Fault α := fun _ _ s => refuse (.unexpectedType "int") s
  float : Binary64 → Option Span → Except Fault α := fun _ s => refuse (.unexpectedType "float") s
  ident : Ident → Except Fault α := fun i => refuse (.unexpectedType "ident") i.span
  path : SymbolPath → Except Fault α := fun p =>
    match p.single? with
    | some i => ident i
    | none => refuse (.unexpectedType "path") p.span
  literal : Literal → Except Fault α := fun l =>
    anchored l.span <|
      match l with
      | .string t => string t
      | .bool b s => bool b s
      | .char c s => char c s
      | .int n digits s => int n digits s
      | .float x _ s => float x s
  value : AttrValue → Except Fault α := fun v =>
    anchored v.span <|
      match v with
      | .path p => path p
      | .literal l => literal l
  arg : AttrArg → Except Fault α := fun a =>
    anchored a.span <|
      match a with
      | .literal l => literal l
      | .node (.word p _) => path p
      | .node (.assign ..) => refuse (.unexpectedType "name value")
      | .node (.list ..) => refuse (.unexpectedType "list")
  list : List AttrArg → Except Fault α := unwrapped empty arg
  node : AttrNode → Except Fault α := fun n =>
    anchored n.span <|
      match n with
      | .word .. => empty
      | .assign _ v _ => value v
      | .list _ args _ => list args
  /-- Whether an extracted value counts as given. -/
  isGiven : α → Bool := fun _ => true

namespace Adapter

/-- Refuses every node. -/
def refusing {α : Type} : Adapter α := {}

/-- Accepts the bare word alone. It carries no value, so it never counts as given. -/
def unit : Adapter Unit where
  empty := .ok ()
  isGiven _ := false

/-- `flag`, `flag = false`, `flag(true)` or `flag = "true"`. -/
def flag : Adapter Bool where
  empty := .ok true
  bool b _ := .ok b
  string l :=
    if l.value = ("true" : Text) then .ok true
    else if l.value = ("false" : Text) then .ok false
    else refuse (.unknownValue l.value) l.span

/-- A string, or a path as its text. -/
def text : Adapter Text where
  string l := .ok l.value
  path p := .ok (Text.ofString p.text)

/-- Checks inclusive bounds. -/
def bounded (minimum maximum : Option Int) (n : Int) (span : Option Span) : Except Fault Int :=
  if minimum.any (n < ·) || maximum.any (· < n) then
    match Numeral.write n with
    | .ok digits => refuse (.unknownValue digits) span
    | .error e => .error (.abort (.numeral e))
  else .ok n

/-- An integer literal or a string that holds an integer between blanks, perhaps within inclusive bounds. -/
def integer (minimum maximum : Option Int := none) : Adapter Int where
  int n _ s := bounded minimum maximum n s
  string l :=
    match Numeral.readInteger l.value.strip with
    | .ok n => bounded minimum maximum n l.span
    | .error _ => refuse (.unknownValue l.value) l.span

/-- A floating-point literal or a string that holds a number. -/
def number : Adapter Binary64 where
  float x _ := .ok x
  string l :=
    match Numeral.readFloat l.value with
    | .ok x => .ok x
    | .error _ => refuse (.unknownValue l.value) l.span

/-- A bare symbol or a string that holds an identifier. -/
def symbol : Adapter Ident where
  ident i := .ok i
  string l :=
    match Identifier.ofText? l.value with
    | some name => .ok ⟨name, l.span⟩
    | none => refuse (.unknownValue l.value) l.span

/-- The parts between separators, `.` or `::`; `acc` is the start of the current one, reversed. -/
def splitPath (acc : Text) : Text → List Text
  | [] => [acc.reverse]
  | .char ':' :: .char ':' :: t => acc.reverse :: splitPath [] t
  | .char '.' :: t => acc.reverse :: splitPath [] t
  | c :: t => splitPath (c :: acc) t

/-- A symbol path or a string that spells one. -/
def symbolPath : Adapter SymbolPath where
  path p := .ok p
  string l :=
    match (splitPath [] l.value).mapM Identifier.ofText? with
    | some parts => .ok ⟨parts.map fun name => ⟨name, l.span⟩, l.span⟩
    | none => refuse (.unknownValue l.value) l.span

/-- Any literal as it is. -/
def anyLiteral : Adapter Literal where
  literal l := .ok l

/-- Any node as it is. -/
def anyNode : Adapter AttrNode where
  node n := .ok n

variable {α β : Type}

/-- A list of values: none for the bare word, one for each argument, or the single one after `=`. -/
def listOf (a : Adapter α) : Adapter (List α) where
  empty := .ok []
  list args := args.mapM a.arg
  value v := do return [← a.value v]

/-- Applies `f` to the extracted value. -/
def map (f : α → β) (a : Adapter α) (isGiven : β → Bool := fun _ => true) : Adapter β where
  empty := a.empty.map f
  string l := (a.string l).map f
  bool b s := (a.bool b s).map f
  char c s := (a.char c s).map f
  int n digits s := (a.int n digits s).map f
  float x s := (a.float x s).map f
  ident i := (a.ident i).map f
  path p := (a.path p).map f
  literal l := (a.literal l).map f
  value v := (a.value v).map f
  arg x := (a.arg x).map f
  list args := (a.list args).map f
  node n := (a.node n).map f
  isGiven := isGiven

end Adapter
end TypedErrors
