import TypedErrors.Code.Names
import TypedErrors.Generated.Namespace
import TypedErrors.Settings

/-! # Generated modules

A module has its imports, a prelude, the statements of each error type, and a list of its public names. -/

namespace TypedErrors
namespace Generated
open Code

/-- The names that every module binds by itself. -/
def preludeNames : List String := ["copy", "dataclass", "TypeVar", "Union", "T", "runtime"]

/-- The import of a source file. -/
def importStmt (i : Import) : Stmt :=
  match i.path.qualifier with
  | [] => .importModule i.path.head i.alias?
  | qualifier => .importFrom (joinWith "." qualifier) [(i.path.last, i.alias?)]

/-- The import of the base classes, under the name `runtime`. -/
def runtimeImport (path : String) : Stmt :=
  let parts := dottedParts path
  let package := joinWith "." parts.dropLast
  let last := parts.getLast?.getD ""
  let alias? := if last = "runtime" then none else some "runtime"
  if package.isEmpty then .importModule last alias? else .importFrom package [(last, alias?)]

/-- The module of a dotted source whose root is not imported already. -/
def sourceModule? (bound : List String) (c : Conversion) : Option String :=
  match c.source.parts with
  | root :: _ :: _ =>
    if bound.contains root then none else some (joinWith "." c.source.parts.dropLast)
  | _ => none

/-- The imports that conversions need, each once. -/
def conversionImports (bound : List String) (types : List GeneratedType) : List Stmt :=
  let modules := types.flatMap fun g => g.type.conversions.filterMap (sourceModule? bound)
  modules.eraseDups.map fun m => .importModule m none

/-- A whole module. -/
def module (s : Settings) (filename : String) (imports : List Import) (types : List GeneratedType) :
    Module :=
  let body := types.flatMap (·.statements)
  let copyImport : List Stmt :=
    if (Stmt.namesAll body).contains "copy" then [.importModule "copy" none] else []
  let exports := types.flatMap (·.exports)
  { body :=
      .importFrom "__future__" [("annotations", none)] :: copyImport ++
      [.importFrom "dataclasses" [("dataclass", none)],
        .importFrom "typing" [("TypeVar", none), ("Union", none)]] ++
      imports.map importStmt ++ conversionImports (imports.map (·.boundName)) types ++
      [runtimeImport s.runtimeModule,
        .assign (.name "T") (.apply (.name "TypeVar") [.text "T"])] ++
      (if exports.isEmpty then [] else [.assign (.name "__all__") (textList exports)]) ++ body
    doc := some s!"Generated by faultline from {filename}. Do not edit." }

end Generated
end TypedErrors
