import TypedErrors.Generated.Context

/-! # Generated namespaces

Each error type has a namespace, a class that holds its kinds, its conversions, the exception type that wraps
its contexts, and the result type. Aliases give members of it a name at module level. -/

namespace TypedErrors
namespace Generated
open Code

/-! ### Conversions -/

/-- The context without fields that a conversion makes. -/
def convertedContext (t : ErrorType) (c : Conversion) : Expr :=
  match c.variant with
  | none => .apply (.name t.ident) []
  | some v => .apply (.dotted (t.ident ++ "." ++ v)) []

/-- Wraps an exception in a context. -/
def conversionFunction (t : ErrorType) (c : Conversion) : Stmt :=
  .function c.function [.ofText "err" c.source.text]
    [.ret (some (.apply (.attribute (convertedContext t c) "into_error") [.name "err"]))]
    (some (.dotted (t.namespaceName ++ ".Error"))) [.name "staticmethod"] none

def conversionFunctions (t : ErrorType) : List Stmt := t.conversions.map (conversionFunction t)

/-- Registers the conversions with their sources. -/
def conversionRegistry (t : ErrorType) : List Stmt :=
  if t.conversions.isEmpty then []
  else
    [.assign (.dotted "Error.conversions")
      (.tuple (t.conversions.map fun c => .tuple [.dotted c.source.text, .name c.function]))]

/-! ### Wrapper -/

/-- The exception type. -/
def errorClass (t : ErrorType) : Stmt :=
  (({ name := "Error", bases := [.dotted "runtime.ContextError"] } : ClassDraft).document
      s!"Exception carrying a :class:\x60{t.ident}\x60 context."
    |>.field "context" t.ident
    |>.method "kind" [.ofText "self"]
      [.ret (some (.apply (.attribute (.attribute (.name "self") "context") "kind") []))]
      (some (.raw (kindPath t)))).build

/-- The exception type with its conversions, and the result type. -/
def wrapper (t : ErrorType) : List Stmt :=
  errorClass t :: conversionRegistry t ++
    [.assign (.name "Result") (.subscript (.name "Union") [.name "T", .name "Error"])]

/-! ### The namespace -/

def textList (names : List String) : Expr := .list (names.map .text)

/-- The public members of a namespace. -/
def namespaceMembers (t : ErrorType) : List String :=
  ["ErrorKind", "Error", "Result"] ++ t.conversions.map (·.function)

/-- A namespace that can be seen everywhere lists its members. -/
def namespaceExports (t : ErrorType) : List Stmt :=
  match t.namespaceVisibility with
  | .pub | .crate => [.assign (.name "__all__") (textList (namespaceMembers t))]
  | _ => []

def namespaceClass (t : ErrorType) : Stmt :=
  let visibility := t.namespaceVisibility.text
  let reach := if visibility.isEmpty then "private" else visibility
  .cls t.namespaceName []
    (namespaceExports t ++ ((kindBase t).add [classification t]).build :: kindCases t ++
      conversionFunctions t ++ wrapper t)
    []
    (some s!"Generated items of :class:\x60{t.ident}\x60 ({reach}).")

end Generated

/-- An error type and its aliases, each with the member of the namespace that it names. -/
structure GeneratedType where
  type : ErrorType
  aliases : List (String × String) := []
deriving Inhabited

namespace GeneratedType
open Code Generated

/-- Adds an alias unless it is disabled. -/
def addAlias (owner : String) (aliases : List (String × String)) (setting : AliasSetting)
    (member : String) : Except Fault (List (String × String)) :=
  match setting.resolve member with
  | none => .ok aliases
  | some name =>
    if (aliases.lookup name).isSome then refuse (.duplicateName name owner)
    else .ok (aliases ++ [(name, member)])

/-- What can still go wrong is that a kind takes a field for its callee, or that two aliases have one
name. -/
def ofErrorType (t : ErrorType) : Except Fault GeneratedType := do
  if t.kindCases.any takesCallee then throw (.abort (.keyword calleeKeyword))
  let aliases ← addAlias t.ident [] t.aliases.error "Error"
  let aliases ← addAlias t.ident aliases t.aliases.result "Result"
  let aliases ← addAlias t.ident aliases t.aliases.kind "ErrorKind"
  return { type := t, aliases }

/-- The names bound at module level. -/
def moduleNames (g : GeneratedType) : List String :=
  g.type.ident :: g.type.namespaceName :: g.aliases.map (·.1)

/-- Only a public type is exported. -/
def exports (g : GeneratedType) : List String :=
  if g.type.visibility.isExported then g.moduleNames else []

/-- What stands after the namespace: the link from the context to its exception type, and the aliases. -/
def moduleLevel (g : GeneratedType) : List Stmt :=
  .assign (.dotted (g.type.ident ++ ".error_type")) (.dotted (g.type.namespaceName ++ ".Error")) ::
    g.aliases.map fun (name, member) =>
      .assign (.name name) (.dotted (g.type.namespaceName ++ "." ++ member))

def statements (g : GeneratedType) : List Stmt :=
  contexts g.type ++ namespaceClass g.type :: g.moduleLevel

end GeneratedType
end TypedErrors
