import TypedErrors.Number.Binary64
import TypedErrors.Text.CodePoint
import TypedErrors.Text.Join

/-! # Generated code

The syntax of the code that is generated: expressions, match patterns and statements. All code is built from
these; only field annotations are taken over as they are written. -/

namespace TypedErrors
namespace Code

inductive Constant where
  | text (t : Text)
  | int (n : Int)
  | float (x : Binary64)
  | bool (b : Bool)
  | none
deriving DecidableEq, Inhabited

mutual

inductive Expr where
  | constant (c : Constant)
  | name (id : String)
  | attribute (value : Expr) (attr : String)
  | call (func : Expr) (args : List Expr) (keywords : List Keyword)
  | subscript (value : Expr) (index : List Expr)
  | tuple (items : List Expr)
  | list (items : List Expr)
  /-- Text taken over as it is. -/
  | raw (code : String)

/-- `name=value` in a call. -/
inductive Keyword where
  | mk (name : String) (value : Expr)

end

instance : Inhabited Expr := ⟨.tuple []⟩

mutual

inductive Pattern where
  /-- Binds a name; without one it is the wildcard. -/
  | capture (name : Option String)
  | cls (type : Expr) (args : List Pattern) (keywords : List KeywordPattern)

inductive KeywordPattern where
  | mk (name : String) (pattern : Pattern)

end

instance : Inhabited Pattern := ⟨.capture none⟩

structure Param where
  name : String
  type : Option Expr := none
deriving Inhabited

mutual

inductive Stmt where
  | pass
  | ret (value : Option Expr)
  | raise (exc : Expr)
  | assign (target value : Expr)
  /-- An annotated name, perhaps with a value. -/
  | annotate (target : String) (type : Expr) (value : Option Expr)
  | delete (targets : List Expr)
  | importModule (module_ : String) (alias? : Option String)
  | importFrom (module_ : String) (names : List (String × Option String))
  | select (subject : Expr) (cases : List Case)
  | function (name : String) (params : List Param) (body : List Stmt) (returns : Option Expr)
      (decorators : List Expr) (doc : Option String)
  | cls (name : String) (bases : List Expr) (body : List Stmt) (decorators : List Expr)
      (doc : Option String)

inductive Case where
  | mk (pattern : Pattern) (body : List Stmt)

end

instance : Inhabited Stmt := ⟨.pass⟩

instance : Inhabited Case := ⟨.mk default []⟩

structure Module where
  body : List Stmt := []
  doc : Option String := none
deriving Inhabited

/-- Functions and classes are set off by blank lines. -/
def Stmt.isDefinition : Stmt → Bool
  | .function .. | .cls .. => true
  | _ => false

/-! ### Building blocks -/

namespace Expr

/-- The reference `a.b.c` of one or more parts. -/
def ofParts : List String → Expr
  | [] => .name ""
  | p :: ps => ps.foldl .attribute (.name p)

/-- The reference that a dotted text spells. -/
def dotted (s : String) : Expr := ofParts (dottedParts s)

/-- A call without keywords. -/
def apply (f : Expr) (args : List Expr) : Expr := .call f args []

def text (s : String) : Expr := .constant (.text (Text.ofString s))

end Expr

/-- A parameter; an empty annotation is none. -/
def Param.ofText (name : String) (type : String := "") : Param :=
  ⟨name, if type.isEmpty then none else some (.raw type)⟩

/-- A class under construction. -/
structure ClassDraft where
  name : String
  bases : List Expr := []
  decorators : List Expr := []
  body : List Stmt := []
  doc : Option String := none
deriving Inhabited

namespace ClassDraft

def base (c : ClassDraft) (bs : List Expr) : ClassDraft := { c with bases := c.bases ++ bs }

def decorate (c : ClassDraft) (d : Expr) : ClassDraft := { c with decorators := c.decorators ++ [d] }

/-- Sets the documentation; none or an empty one changes nothing. -/
def document (c : ClassDraft) (doc : Option String) : ClassDraft :=
  match doc with
  | some d => if d.isEmpty then c else { c with doc := some d }
  | none => c

def add (c : ClassDraft) (ss : List Stmt) : ClassDraft := { c with body := c.body ++ ss }

/-- Declares a field; its annotation is taken over as it is. -/
def field (c : ClassDraft) (name type : String) : ClassDraft :=
  c.add [.annotate name (.raw type) none]

def method (c : ClassDraft) (name : String) (params : List Param) (body : List Stmt)
    (returns : Option Expr := none) (decorators : List Expr := []) : ClassDraft :=
  c.add [.function name params body returns decorators none]

def build (c : ClassDraft) : Stmt := .cls c.name c.bases c.body c.decorators c.doc

end ClassDraft
end Code
end TypedErrors
