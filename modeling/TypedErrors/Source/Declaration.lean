import TypedErrors.Source.Terminal
import TypedErrors.Source.TypeExpr
import TypedErrors.Span

/-! # Declarations

The shapes that a source file declares: imports, and attributed structs, enums and unions. -/

namespace TypedErrors

/-- How far a declaration can be seen. A restriction names a scope, by a full path after `in`. -/
inductive Visibility where
  | pub
  | crate
  | inherited
  | restricted (path : List String) (byPath : Bool)
deriving DecidableEq, Inhabited

namespace Visibility

def isExported (v : Visibility) : Bool := v = .pub

def text : Visibility → String
  | .pub => "pub"
  | .crate => "pub(crate)"
  | .inherited => ""
  | .restricted path byPath =>
    "pub(" ++ (if byPath then "in " else "") ++ ".".intercalate path ++ ")"

end Visibility

/-- A token of an attribute block. -/
structure AttrToken where
  terminal : Terminal
  text : String
  span : Option Span := none
deriving DecidableEq, Inhabited

/-- The tokens between `#[` and `]`. -/
structure RawAttribute where
  tokens : List AttrToken
  span : Option Span := none
deriving DecidableEq, Inhabited

/-- The name that the block starts with. -/
def RawAttribute.namespace? (a : RawAttribute) : Option String :=
  match a.tokens with
  | t :: _ => if t.terminal = .name then some t.text else none
  | [] => none

inductive FieldKey where
  | name (s : String)
  | index (i : Nat)
deriving DecidableEq, Inhabited

/-- The name of the attribute that holds an unnamed field. -/
def positionalName (index : Int) : String := s!"_{index}"

/-- The name of the attribute that holds a field. -/
def FieldKey.attribute : FieldKey → String
  | .name s => s
  | .index i => positionalName i

/-- The fields of a struct or variant. Unnamed fields keep their index also when only some are kept. -/
inductive Fields (α : Type) where
  | unit
  | named (items : List (String × α))
  | unnamed (items : List (Nat × α))
deriving DecidableEq, Inhabited

namespace Fields
variable {α β : Type}

def entries : Fields α → List (FieldKey × α)
  | .unit => []
  | .named items => items.map fun (k, x) => (.name k, x)
  | .unnamed items => items.map fun (k, x) => (.index k, x)

def values (fs : Fields α) : List α := fs.entries.map (·.2)

def size (fs : Fields α) : Nat := fs.entries.length

/-- Unnamed fields numbered from zero. -/
def ofList (xs : List α) : Fields α := .unnamed (xs.zipIdx.map fun (x, i) => (i, x))

/-- The first field with the key. -/
def get? (fs : Fields α) (k : FieldKey) : Option α := fs.entries.lookup k

/-- Applies `f` to the fields in order, shape and keys kept; the first failure ends it. -/
def mapM {m : Type → Type} [Monad m] (f : α → m β) : Fields α → m (Fields β)
  | .unit => pure .unit
  | .named items => .named <$> items.mapM fun (k, x) => do return (k, ← f x)
  | .unnamed items => .unnamed <$> items.mapM fun (k, x) => do return (k, ← f x)

def filter (p : α → Bool) : Fields α → Fields α
  | .unit => .unit
  | .named items => .named (items.filter fun (_, x) => p x)
  | .unnamed items => .unnamed (items.filter fun (_, x) => p x)

end Fields

structure Field where
  name : Option String
  type : TypeExpr
  attrs : List RawAttribute := []
  visibility : Visibility := .inherited
  docs : List String := []
  span : Option Span := none
deriving Inhabited

structure Variant where
  ident : String
  fields : Fields Field
  attrs : List RawAttribute := []
  docs : List String := []
  span : Option Span := none
deriving Inhabited

inductive Shape where
  | struct (fields : Fields Field)
  | enum (variants : List Variant)
  | union (fields : Fields Field)
deriving Inhabited

structure Declaration where
  ident : String
  visibility : Visibility
  shape : Shape
  attrs : List RawAttribute := []
  docs : List String := []
  span : Option Span := none
deriving Inhabited

/-- `use path;` or `use path as alias;`. -/
structure Import where
  path : DottedName
  alias? : Option String := none
  span : Option Span := none
deriving Inhabited

/-- The name an import binds. -/
def Import.boundName (i : Import) : String := i.alias?.getD i.path.last

structure SourceFile where
  filename : String
  imports : List Import := []
  declarations : List Declaration := []
deriving Inhabited

end TypedErrors
