import TypedErrors.Description.Reference

/-! # Error types

The validated form of an attributed declaration: a context with its fields and description, or variants of
them, the names of its module-level aliases, and the conversions into it. -/

namespace TypedErrors

/-- How an included field is duplicated into the kind. -/
inductive CopyMethod where
  | copy
  | clone
deriving DecidableEq, Inhabited

namespace CopyMethod

def name : CopyMethod → String
  | .copy => "copy"
  | .clone => "clone"

def ofText? (t : Text) : Option CopyMethod := [copy, clone].find? fun m => Text.ofString m.name = t

end CopyMethod

/-- The setting of a module-level alias. -/
inductive AliasSetting where
  | byDefault
  | enabled
  | disabled
  | override (name : String)
deriving DecidableEq, Inhabited

/-- The alias that a setting asks for. -/
def AliasSetting.resolve (standard : String) : AliasSetting → Option String
  | .byDefault | .enabled => some standard
  | .disabled => none
  | .override name => some name

namespace Adapter

def copyMethodNamed (value : Text) (span : Option Span) : Except Fault CopyMethod :=
  match CopyMethod.ofText? value with
  | some m => .ok m
  | none => refuse (.unknownValue value) span

/-- `method = copy`, `method = clone` or the string forms. -/
def copyMethod : Adapter CopyMethod where
  string l := copyMethodNamed l.value l.span
  ident i := copyMethodNamed (Text.ofString i.name) i.span

/-- `error_type`, `error_type = false` or `error_type = MyError`. -/
def aliasSetting : Adapter AliasSetting where
  empty := .ok .enabled
  bool b _ := .ok (if b then .enabled else .disabled)
  string l :=
    match Identifier.ofText? l.value with
    | some name => .ok (.override name)
    | none => refuse (.unknownValue l.value) l.span
  ident i := .ok (.override i.name)

end Adapter

structure ErrorField where
  type : TypeExpr
  /-- The field is part of the kind. -/
  isIncluded : Bool := false
  method : CopyMethod := .copy
  span : Option Span := none
deriving Inhabited

structure ErrorVariant where
  ident : String
  fields : Fields ErrorField
  description : BoundDescription
  sources : List SymbolPath := []
  docs : List String := []
  span : Option Span := none
deriving Inhabited

inductive ErrorShape where
  | struct (fields : Fields ErrorField) (description : BoundDescription) (sources : List SymbolPath)
  | enum (variants : List ErrorVariant)
deriving Inhabited

/-- The settings of the three aliases of a type. -/
structure AliasSettings where
  error : AliasSetting := .byDefault
  result : AliasSetting := .byDefault
  kind : AliasSetting := .byDefault
deriving DecidableEq, Inhabited

/-- A conversion of an exception type into a context without fields. -/
structure Conversion where
  source : SymbolPath
  function : String
  variant : Option String := none
deriving DecidableEq, Inhabited

structure ErrorType where
  ident : String
  visibility : Visibility
  shape : ErrorShape
  aliases : AliasSettings
  /-- The name of the generated namespace, and who can see it. -/
  namespaceName : String
  namespaceVisibility : Visibility
  conversions : List Conversion := []
  docs : List String := []
  span : Option Span := none
deriving Inhabited

/-! ### Kinds -/

/-- The kind of a struct or variant: all its fields, and those that the kind includes. -/
structure KindCase where
  ident : String
  allFields : Fields ErrorField
  included : Fields ErrorField
deriving Inhabited

/-- No included field has to be cloned. -/
def KindCase.isCopy (c : KindCase) : Bool := c.included.values.all (·.method = .copy)

def KindCase.ofFields (ident : String) (fields : Fields ErrorField) : KindCase :=
  ⟨ident, fields, fields.filter (·.isIncluded)⟩

namespace ErrorType

def kindCases (t : ErrorType) : List KindCase :=
  match t.shape with
  | .struct fields _ _ => [.ofFields t.ident fields]
  | .enum variants => variants.map fun v => .ofFields v.ident v.fields

def isStruct (t : ErrorType) : Bool :=
  match t.shape with
  | .struct .. => true
  | .enum _ => false

/-- Kinds are duplicated by sharing them. -/
def isCopy (t : ErrorType) : Bool := t.kindCases.all (·.isCopy)

end ErrorType
end TypedErrors
