/-! # Type annotations

The annotation of a field: alternatives of possibly subscripted dotted names. `render` is its canonical
text. -/

namespace TypedErrors

/-- A name of one or more parts. -/
structure DottedName where
  head : String
  tail : List String := []
deriving DecidableEq, Inhabited

namespace DottedName

def parts (n : DottedName) : List String := n.head :: n.tail

def text (n : DottedName) : String := ".".intercalate n.parts

def last (n : DottedName) : String := n.tail.getLast?.getD n.head

/-- All parts but the last. -/
def qualifier (n : DottedName) : List String := n.parts.dropLast

end DottedName

mutual

/-- `a | b | …`, at least one alternative. -/
inductive TypeExpr where
  | union (first : TypeAtom) (more : List TypeAtom)

/-- A dotted name, with one or more arguments if it is subscripted. -/
inductive TypeAtom where
  | plain (path : DottedName)
  | subscripted (path : DottedName) (first : TypeArg) (more : List TypeArg)

inductive TypeArg where
  | type (t : TypeExpr)
  | list (items : List TypeArg)
  | literal (text : String)
  | ellipsis

end

instance : Inhabited TypeExpr := ⟨.union (.plain default) []⟩

/-- A type that is one bare name. -/
def TypeExpr.named (name : String) : TypeExpr := .union (.plain { head := name }) []

mutual

def TypeExpr.render : TypeExpr → String
  | .union first more => first.render ++ TypeAtom.renderMore more

def TypeAtom.render : TypeAtom → String
  | .plain path => path.text
  | .subscripted path first more => path.text ++ "[" ++ first.render ++ TypeArg.renderMore more ++ "]"

def TypeArg.render : TypeArg → String
  | .type t => t.render
  | .list [] => "[]"
  | .list (first :: more) => "[" ++ first.render ++ TypeArg.renderMore more ++ "]"
  | .literal text => text
  | .ellipsis => "..."

def TypeAtom.renderMore : List TypeAtom → String
  | [] => ""
  | a :: more => " | " ++ a.render ++ TypeAtom.renderMore more

def TypeArg.renderMore : List TypeArg → String
  | [] => ""
  | a :: more => ", " ++ a.render ++ TypeArg.renderMore more

end

end TypedErrors
