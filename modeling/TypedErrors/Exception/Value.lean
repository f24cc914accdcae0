import TypedErrors.Number.Binary64
import TypedErrors.Text.Quoted

/-! # Values

Plain data: what an exception may be given as an argument, and what a fallible computation may return. -/

namespace TypedErrors

inductive Value where
  | none
  | bool (b : Bool)
  | int (n : Int)
  | float (x : Binary64)
  | text (t : Text)
  | list (items : List Value)
  | record (entries : List (Text × Value))
deriving Inhabited

namespace Value

mutual

/-- The display form; texts in it are quoted. -/
def display : Value → Text
  | .none => Text.ofString "None"
  | .bool b => Text.ofString (if b then "True" else "False")
  | .int n => Text.ofString (toString n)
  | .float x => Text.ofString x.render
  | .text t => Text.ofString t.display
  | .list items => Text.ofString "[" ++ displayItems items ++ Text.ofString "]"
  | .record entries => Text.ofString "\x7b" ++ displayEntries entries ++ Text.ofString "\x7d"

/-- The items with commas between them. -/
def displayItems : List Value → Text
  | [] => []
  | [v] => v.display
  | v :: vs => v.display ++ Text.ofString ", " ++ displayItems vs

def displayEntries : List (Text × Value) → Text
  | [] => []
  | [(k, v)] => Text.ofString (k.display ++ ": ") ++ v.display
  | (k, v) :: rest =>
    Text.ofString (k.display ++ ": ") ++ v.display ++ Text.ofString ", " ++ displayEntries rest

end

/-- A text stands for itself, any other value for its display form. -/
def shown : Value → Text
  | .text t => t
  | v => v.display

/-- A tuple of values. -/
def displayTuple (vs : List Value) : Text :=
  Text.ofString "(" ++ displayItems vs ++ Text.ofString (if vs.length = 1 then ",)" else ")")

def isNone : Value → Bool
  | .none => true
  | _ => false

end Value
end TypedErrors
