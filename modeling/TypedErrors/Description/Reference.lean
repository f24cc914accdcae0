import TypedErrors.Attribute.Adapter
import TypedErrors.Code.Syntax
import TypedErrors.Description.Template
import TypedErrors.Source.Declaration

/-! # Descriptions

A description is a plain text, or a template with references to fields as its arguments. Binding it replaces
the references by code that reads the fields. -/

namespace TypedErrors

/-- A reference to a field by its name, or by its index as written in `digits`. -/
inductive FieldRef where
  | name (name : Text) (span : Option Span)
  | index (index : Int) (digits : String) (span : Option Span)
deriving DecidableEq, Inhabited

namespace FieldRef

def text : FieldRef → Text
  | .name n _ => n
  | .index _ digits _ => Text.ofString digits

def span : FieldRef → Option Span
  | .name _ s | .index _ _ s => s

end FieldRef

inductive Description where
  | plain (template : TextLiteral)
  | format (template : TextLiteral) (args : List FieldRef)
deriving DecidableEq, Inhabited

namespace Adapter

/-- `code`, `"code"` or `0`. -/
def fieldRef : Adapter FieldRef where
  ident i := .ok (.name (Text.ofString i.name) i.span)
  string l := .ok (.name l.value l.span)
  int n digits s := .ok (.index n digits s)

def templateLiteral : Adapter TextLiteral where
  string l := .ok l

def plainDescription : Adapter Description where
  string l := .ok (.plain l)

/-- `description = "Io"`, `description("Io")` or `description("Error {0}", code)`. -/
def description : Adapter Description where
  string l := .ok (.plain l)
  list
    | template :: first :: more => do
      return .format (← templateLiteral.arg template) (← (first :: more).mapM fieldRef.arg)
    | few => plainDescription.list few

end Adapter

/-- A template whose references are bound to expressions. -/
structure BoundDescription where
  template : Text
  args : List Code.Expr := []
deriving Inhabited

/-- How generated code reaches a field: as an attribute of `self`, or as a captured name. -/
inductive FieldAccess where
  | attribute
  | capture
deriving DecidableEq

def FieldAccess.expr : FieldAccess → String → Code.Expr
  | .attribute, field => .attribute (.name "self") field
  | .capture, field => .name field

namespace FieldRef
variable {α : Type}

/-- The field that a reference denotes: named fields are referred to by name, unnamed ones by index. -/
def key? (fields : Fields α) (ref : FieldRef) : Option FieldKey :=
  match fields, ref with
  | .named _, .name n _ => do
    let key := FieldKey.name (← n.string?)
    if (fields.get? key).isSome then some key else none
  | .unnamed _, .index i _ _ =>
    let key := FieldKey.index i.toNat
    if 0 ≤ i && (fields.get? key).isSome then some key else none
  | _, _ => none

/-- Names to suggest for a reference by name to a field that is not there. -/
def similar (fields : Fields α) (ref : FieldRef) : List String :=
  match fields, ref with
  | .named items, .name n _ => suggestSimilar n (items.map (·.1))
  | _, _ => []

def resolve (fields : Fields α) (ref : FieldRef) : Except Fault FieldKey :=
  match ref.key? fields with
  | some key => .ok key
  | none => refuse (.unresolvedReference ref.text (ref.similar fields)) ref.span

end FieldRef

/-- Binds the references of a description, then checks its template. A plain text is taken as it is. -/
def Description.bind {α : Type} (access : FieldAccess) (fields : Fields α) :
    Description → Except Fault BoundDescription
  | .plain template => .ok { template := template.value }
  | .format template refs => do
    let args ← refs.mapM fun ref => do return access.expr (← ref.resolve fields).attribute
    match Template.validate template.value args.length with
    | .ok () => return { template := template.value, args }
    | .error e => .error (e.fault.withSpan template.span)

end TypedErrors
