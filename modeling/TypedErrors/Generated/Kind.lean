import TypedErrors.ErrorType.Basic

/-! # Kind classes

The kind of an error tells which case it is, with the included fields: a base class, one data class per case
attached to it, and a function from a context to its kind. -/

namespace TypedErrors
namespace Generated
open Code

/-- The base class of kinds, as named from outside the namespace. -/
def kindPath (t : ErrorType) : String := t.namespaceName ++ ".ErrorKind"

/-- The base class of kinds. A kind that is shared copies as itself. -/
def kindBase (t : ErrorType) : ClassDraft :=
  let draft := ((ClassDraft.mk "ErrorKind" [] [] [] none).base [.dotted "runtime.ErrorKind"]).document
    s!"Classification of :class:\x60{t.ident}\x60 values."
  if t.isCopy then draft.method "__copy__" [.ofText "self"] [.ret (some (.name "self"))] else draft

/-- A declared field of a class. -/
def fieldStmt (entry : FieldKey × ErrorField) : Stmt :=
  .annotate entry.1.attribute (.raw entry.2.type.render) none

/-- The class of a case, which is then attached to the base under its own name. -/
def kindCase (t : ErrorType) (c : KindCase) : List Stmt :=
  let temporary := "_ErrorKind_" ++ c.ident
  let decorator : Expr :=
    if t.isCopy then .call (.name "dataclass") [] [.mk "frozen" (.constant (.bool true))]
    else .name "dataclass"
  let qualname : Stmt := .assign (.name "__qualname__") (.text (kindPath t ++ "." ++ c.ident))
  let draft : ClassDraft :=
    { name := temporary
      bases := [.name "ErrorKind"]
      decorators := [decorator]
      body := qualname :: c.included.entries.map fieldStmt }
  [draft.build, .assign (.dotted ("ErrorKind." ++ c.ident)) (.name temporary), .delete [.name temporary]]

/-- The classes of all cases. -/
def kindCases (t : ErrorType) : List Stmt := t.kindCases.flatMap (kindCase t)

def kinds (t : ErrorType) : List Stmt := (kindBase t).build :: kindCases t

/-! ### Classification -/

/-- The value of a field for the kind: a cloned field is copied, another one shared. -/
def duplicated (f : ErrorField) (value : Expr) : Expr :=
  match f.method with
  | .copy => value
  | .clone => .apply (.dotted "copy.copy") [value]

/-- The name by which a call takes its callee. -/
def calleeKeyword : String := "func"

/-- A kind takes its named fields as keywords, and no keyword can have the name of the callee. -/
def takesCallee (c : KindCase) : Bool :=
  match c.included with
  | .named items => items.any fun (k, _) => k = calleeKeyword
  | _ => false

/-- Builds the kind of a case from the fields that it includes. -/
def kindValue (t : ErrorType) (c : KindCase) (access : String → Expr) : Expr :=
  let kind := Expr.dotted (kindPath t ++ "." ++ c.ident)
  match c.included with
  | .named items => .call kind [] (items.map fun (k, f) => .mk k (duplicated f (access k)))
  | included => .call kind (included.entries.map fun (k, f) => duplicated f (access k.attribute)) []

/-- Matches a variant and captures the fields that its kind includes. -/
def kindPattern (t : ErrorType) (c : KindCase) : Pattern :=
  let type := Expr.dotted (t.ident ++ "." ++ c.ident)
  match c.allFields with
  | .named _ =>
    .cls type [] (c.included.entries.map fun (k, _) => .mk k.attribute (.capture (some k.attribute)))
  | .unnamed items =>
    if c.included.size = 0 then .cls type [] []
    else .cls type (items.map fun (i, f) =>
      .capture (if f.isIncluded then some (positionalName i) else none)) []
  | .unit => .cls type [] []

/-- Raises the name of the class of a value. -/
def raiseUnknown (value : String) : Stmt :=
  .raise (.apply (.name "TypeError") [.attribute (.apply (.name "type") [.name value]) "__qualname__"])

/-- Selects among cases, and raises when none matches. -/
def selectOrRaise (value : String) (cases : List Case) : List Stmt :=
  if cases.isEmpty then [raiseUnknown value]
  else [.select (.name value) cases, raiseUnknown value]

/-- The function from a context to its kind. -/
def classification (t : ErrorType) : Stmt :=
  let body : List Stmt :=
    if t.isStruct then
      t.kindCases.map fun c => .ret (some (kindValue t c (.attribute (.name "context"))))
    else
      selectOrRaise "context" (t.kindCases.map fun c =>
        .mk (kindPattern t c) [.ret (some (kindValue t c .name))])
  .function "from_context" [.ofText "context" t.ident] body (some (.dotted (kindPath t)))
    [.name "staticmethod"] none

end Generated
end TypedErrors
