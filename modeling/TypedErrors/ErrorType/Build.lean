import TypedErrors.Attribute.Entries
import TypedErrors.ErrorType.Basic
import TypedErrors.Settings
import TypedErrors.Source.Scope
import TypedErrors.Text.SnakeCase

/-! # Building error types

An error type is built from a declaration in three steps: its fields, its own attributes, and its
conversions. Each set of attributes is read to the end before the next one is begun. -/

namespace TypedErrors
namespace ErrorType

/-- Members that every context class defines, which no field may displace. -/
def reservedFields : List String := ["kind", "into_error", "error_type", "from_context"]

def duplicate (message : String) (span : Option Span) : Except Fault Unit :=
  refuse { code := .duplicateName, message := Text.ofString message } span

/-- Names of fields are distinct and not reserved. -/
def checkNames (owner : String) (items : List (String × Field)) : Except Fault Unit :=
  items.forM fun (name, _) => do
    let span := (items.lookup name).bind (·.span)
    if 1 < (items.map (·.1)).count name then
      duplicate s!"Field \x60{name}\x60 is declared more than once in \x60{owner}\x60" span
    if reservedFields.contains name then
      duplicate s!"Field \x60{name}\x60 of \x60{owner}\x60 collides with a generated member" span

/-- How a field that the kind includes is duplicated. -/
def readMethod : Extract CopyMethod := do
  match ← Extract.optional "method" .copyMethod with
  | some m => return m
  | none =>
    match ← Extract.optional "clone" .flag with
    | some true => return .clone
    | _ => return .copy

def buildField (s : Settings) (f : Field) : Except Fault ErrorField :=
  Extract.ofAttributes s.attributeNamespace f.attrs do
    let isIncluded := (← Extract.optional "include_in_kind" .flag).getD false
    let method ← if isIncluded then readMethod else pure .copy
    Extract.finish
    return { type := f.type, isIncluded, method, span := f.span }

def buildFields (s : Settings) (owner : String) (fields : Fields Field) :
    Except Fault (Fields ErrorField) := do
  match fields with
  | .named items => checkNames owner items
  | _ => pure ()
  fields.mapM (buildField s)

def readAlias (name : String) : Extract AliasSetting := do
  return (← Extract.optional name .aliasSetting).getD .byDefault

def readAliases : Extract AliasSettings := do
  return ⟨← readAlias "error_type", ← readAlias "result_type", ← readAlias "kind_type"⟩

/-- The description, bound to the fields, and the sources of conversions. -/
def readContext (access : FieldAccess) (fields : Fields ErrorField) (anchor : Option Span) :
    Extract (BoundDescription × List SymbolPath) := do
  let description ← Extract.required "description" .description anchor
  let bound ← MonadExcept.ofExcept (description.bind access fields)
  let sources ← Extract.all "from" .symbolPath
  Extract.finish
  return (bound, sources)

def buildVariant (s : Settings) (owner : String) (v : Variant) : Except Fault ErrorVariant := do
  let fields ← buildFields s s!"{owner}.{v.ident}" v.fields
  let (description, sources) ← Extract.ofAttributes s.attributeNamespace v.attrs
    (readContext .capture fields v.span)
  return { ident := v.ident, fields, description, sources, docs := v.docs, span := v.span }

/-- Builds the variants in order; `seen` are the names before. -/
def buildVariants (s : Settings) (owner : String) (seen : List String) :
    List Variant → Except Fault (List ErrorVariant)
  | [] => .ok []
  | v :: vs => do
    if seen.contains v.ident then
      duplicate s!"Variant \x60{v.ident}\x60 is declared more than once" v.span
    return (← buildVariant s owner v) :: (← buildVariants s owner (v.ident :: seen) vs)

def buildShape (s : Settings) (d : Declaration) : Except Fault (ErrorShape × AliasSettings) :=
  match d.shape with
  | .struct fields => do
    let fields ← buildFields s d.ident fields
    Extract.ofAttributes s.attributeNamespace d.attrs do
      let aliases ← readAliases
      let (description, sources) ← readContext .attribute fields d.span
      return (.struct fields description sources, aliases)
  | .enum variants => do
    let variants ← buildVariants s d.ident [] variants
    Extract.ofAttributes s.attributeNamespace d.attrs do
      let aliases ← readAliases
      Extract.finish
      return (.enum variants, aliases)
  | .union _ => refuse (.unsupportedShape "union") d.span

/-! ### Conversions -/

/-- The name of the conversion of a source. -/
def conversionName (source : SymbolPath) : String :=
  "from_" ++ snakeCase ((source.parts.getLast?).getD "")

/-- A report of the first conversion whose name an earlier one has; `seen` are those before. -/
def nameClash? (seen : List Conversion) : List Conversion → Option Fault
  | [] => none
  | c :: cs =>
    match seen.find? (·.function = c.function) with
    | some previous =>
      some (.report ((Diagnostic.duplicateName c.function previous.source.text).withSpan c.source.span))
    | none => nameClash? (c :: seen) cs

/-- Binds the sources of a context. Only a context without fields can be converted into. -/
def bindSources (variant : Option String) (fields : Fields ErrorField) (sources : List SymbolPath) :
    List Conversion × Option Fault :=
  match sources with
  | [] => ([], none)
  | first :: _ =>
    if fields.size = 0 then
      let cs := sources.map fun source => { source, function := conversionName source, variant }
      (cs, nameClash? [] cs)
    else
      ([], some (.report
        { code := .unsupportedShape
          message := Text.ofString
            "Cannot generate a \x60from\x60 conversion for a context that has fields"
          span := first.span }))

/-- Binds the sources of the variants in order, up to the first that is refused. -/
def bindVariants : List ErrorVariant → List Conversion × Option Fault
  | [] => ([], none)
  | v :: vs =>
    match bindSources (some v.ident) v.fields v.sources with
    | (cs, some f) => (cs, some f)
    | (cs, none) =>
      let (rest, f) := bindVariants vs
      (cs ++ rest, f)

/-- The conversions that are bound before a refusal, and the refusal, if there is one. -/
def bindConversions : ErrorShape → List Conversion × Option Fault
  | .struct fields _ sources => bindSources none fields sources
  | .enum variants =>
    match bindVariants variants with
    | (cs, some f) => (cs, some f)
    | (cs, none) => (cs, nameClash? [] cs)

/-- Builds the error type of a declaration. -/
def build (s : Settings) (d : Declaration) : Except Fault ErrorType := do
  let (shape, aliases) ← buildShape s d
  match bindConversions shape with
  | (_, some f) => throw f
  | (conversions, none) =>
    return { ident := d.ident, visibility := d.visibility, shape, aliases
             namespaceName := s.modulePrefix ++ snakeCase d.ident
             namespaceVisibility := (d.visibility.within 1).getD d.visibility
             conversions, docs := d.docs, span := d.span }

/-- The conversions bound while a declaration is built, also when it is refused in the end. -/
def boundConversions (s : Settings) (d : Declaration) : List Conversion :=
  match buildShape s d with
  | .ok (shape, _) => (bindConversions shape).1
  | .error _ => []

end ErrorType
end TypedErrors
