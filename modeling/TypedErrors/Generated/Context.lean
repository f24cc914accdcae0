import TypedErrors.Generated.Kind
import TypedErrors.Text.Join

/-! # Context classes

The class of a struct is a data class whose text is its description. An enum has a base class, which finds
the description of its variant, and one data class per variant attached to it. -/

namespace TypedErrors
namespace Generated
open Code

/-- The text of a description: the template itself, or the template with its arguments formatted in. -/
def descriptionExpr (d : BoundDescription) : Expr :=
  let template : Expr := .constant (.text d.template)
  if d.args.isEmpty then template else .apply (.attribute template "format") d.args

/-- The documentation of a declaration. -/
def documentation (docs : List String) : Option String :=
  if docs.isEmpty then none else some (joinWith "\n" docs)

/-- A data class with a text of its own. -/
def dataclass : Expr := .call (.name "dataclass") [] [.mk "repr" (.constant (.bool false))]

/-- The kind of a context. -/
def kindMethod (t : ErrorType) : Stmt :=
  .function "kind" [.ofText "self"]
    [.ret (some (.apply (.dotted (kindPath t ++ ".from_context")) [.name "self"]))]
    (some (.raw (kindPath t))) [] none

/-- The methods of a context: its kind, and its text in both forms. -/
def contextMethods (t : ErrorType) (text : List Stmt) : List Stmt :=
  [kindMethod t,
    .function "__str__" [.ofText "self"] text (some (.raw "str")) [] none,
    .assign (.name "__repr__") (.name "__str__")]

/-- The class of a struct. -/
def structContext (t : ErrorType) (fields : Fields ErrorField) (d : BoundDescription) : Stmt :=
  (({ name := t.ident, bases := [.dotted "runtime.ErrorContext"], decorators := [dataclass] } :
    ClassDraft).document (documentation t.docs)
    |>.add (fields.entries.map fieldStmt)
    |>.add (contextMethods t [.ret (some (descriptionExpr d))])).build

/-- Matches a variant and captures its fields. -/
def variantPattern (t : ErrorType) (v : ErrorVariant) : Pattern :=
  let type := Expr.dotted (t.ident ++ "." ++ v.ident)
  match v.fields with
  | .named items => .cls type [] (items.map fun (k, _) => .mk k (.capture (some k)))
  | .unnamed items => .cls type (items.map fun (i, _) => .capture (some (positionalName i))) []
  | .unit => .cls type [] []

/-- The base class of an enum. -/
def enumBase (t : ErrorType) (variants : List ErrorVariant) : Stmt :=
  let cases := variants.map fun v =>
    Case.mk (variantPattern t v) [.ret (some (descriptionExpr v.description))]
  (({ name := t.ident, bases := [.dotted "runtime.ErrorContext"] } :
    ClassDraft).document (documentation t.docs)
    |>.add (contextMethods t (selectOrRaise "self" cases))).build

/-- The class of a variant, which is then attached to the base under its own name. -/
def variantContext (t : ErrorType) (v : ErrorVariant) : List Stmt :=
  let temporary := "_" ++ t.ident ++ "_" ++ v.ident
  let path := t.ident ++ "." ++ v.ident
  let draft := ({ name := temporary, bases := [.name t.ident], decorators := [dataclass] } :
    ClassDraft).document (documentation v.docs)
    |>.add [.assign (.name "__qualname__") (.text path)]
    |>.add (v.fields.entries.map fieldStmt)
  [draft.build, .assign (.dotted path) (.name temporary), .delete [.name temporary]]

/-- The context classes of an error type. -/
def contexts (t : ErrorType) : List Stmt :=
  match t.shape with
  | .struct fields description _ => [structContext t fields description]
  | .enum variants => enumBase t variants :: variants.flatMap (variantContext t)

end Generated
end TypedErrors
