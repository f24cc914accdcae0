import Std.Data.HashMap
import TypedErrors.Yaml.Node
import TypedErrors.Yaml.Scalar

/-! # Documents as trees

The value of a node: scalars have types, items and entries keep the places where they start, and the keys of
a mapping differ from each other. -/

namespace TypedErrors
namespace Yaml

/-- The key of an entry. A collection of scalars is a key by its written form. -/
inductive Key where
  | scalar (s : Scalar)
  | compound (shown : Text)
deriving DecidableEq, Hashable, Inhabited

namespace Key

def text : Key → Text
  | .scalar s => s.toText
  | .compound t => t

def shown : Key → Text
  | .scalar s => s.shown
  | .compound t => t

/-- What two keys of one mapping must not share. -/
def identity? : Key → Option Key
  | .scalar s => s.identity?.map .scalar
  | k => some k

end Key

inductive Tree where
  | scalar (s : Scalar)
  | sequence (items : List (Mark × Tree))
  | mapping (entries : List (Key × Mark × Tree))
deriving Inhabited

namespace Tree

/-- The parts of a tree, one level down. -/
def children : Tree → List Tree
  | .scalar _ => []
  | .sequence items => items.map (·.2)
  | .mapping entries => entries.map (·.2.2)

/-- Takes nodes from a stack and puts their children on it; at most `room` nodes are taken. -/
def fitsStack : (room : Nat) → (stack : List Tree) → Bool
  | _, [] => true
  | 0, _ :: _ => false
  | room + 1, t :: ts => fitsStack room (t.children ++ ts)

/-- Whether a tree has at most `limit` nodes, collections included. No more than these are visited. -/
def fits (limit : Nat) (t : Tree) : Bool := fitsStack limit [t]

def separated (parts : List Text) : Text := (parts.intersperse (Text.ofString ", ")).flatten

mutual

/-- How a value reads inside a collection. -/
def shown : Tree → Text
  | .scalar s => s.shown
  | .sequence items => Text.ofString "[" ++ separated (shownItems items) ++ Text.ofString "]"
  | .mapping entries =>
    if entries.isEmpty then Text.ofString "ordereddict()"
    else Text.ofString "ordereddict([" ++ separated (shownEntries entries) ++ Text.ofString "])"

def shownItems : List (Mark × Tree) → List Text
  | [] => []
  | (_, t) :: items => t.shown :: shownItems items

def shownEntries : List (Key × Mark × Tree) → List Text
  | [] => []
  | (k, _, t) :: entries =>
    (Text.ofString "(" ++ k.shown ++ Text.ofString ", " ++ t.shown ++ Text.ofString ")") ::
      shownEntries entries

end

/-- How a value reads as a text. -/
def toText : Tree → Text
  | .scalar s => s.toText
  | t => t.shown

def isCollection : Tree → Bool
  | .scalar _ => false
  | _ => true

/-- The key that a tree is; a collection within a collection is none. -/
def toKey : Tree → Except ValueFault Key
  | .scalar s => .ok (.scalar s)
  | t =>
    match t.children.find? isCollection with
    | some (.mapping _) => .error (.nestedKey true)
    | some _ => .error (.nestedKey false)
    | none =>
      match t with
      | .sequence items =>
        let tail := if items.length = 1 then ",)" else ")"
        .ok (.compound (Text.ofString "(" ++ separated (shownItems items) ++ Text.ofString tail))
      | t => .ok (.compound t.shown)

/-- Two entries of one mapping with the same key. -/
def duplicate (mapping : Mark) (key : Key) (place : Mark) (value first : Tree) : Error :=
  .problem
    { context? := some ("while constructing a mapping", mapping)
      message := Text.ofString "found duplicate key \"" ++ key.text ++ Text.ofString "\" with value \"" ++
        value.toText ++ Text.ofString "\" (original value: \"" ++ first.toText ++ Text.ofString "\")"
      mark := place }

mutual

/-- The value of a node. -/
def ofNode : Node → Except Error Tree
  | .scalar _ text isPlain tag? =>
    match Scalar.ofNode text isPlain tag? with
    | .ok s => .ok (.scalar s)
    | .error f => .error (.value f)
  | .sequence _ items => do return .sequence (← ofItems [] items)
  | .mapping start entries => do return .mapping (← ofEntries start {} [] entries)

/-- The items of a sequence; `earlier` holds those before, the last one first. -/
def ofItems (earlier : List (Mark × Tree)) : List Node → Except Error (List (Mark × Tree))
  | [] => .ok earlier.reverse
  | n :: ns =>
    match ofNode n with
    | .error e => .error e
    | .ok t => ofItems ((n.start, t) :: earlier) ns

/-- The entries of a mapping that starts at `start`; `seen` holds the values of the keys before, `earlier`
the entries, the last one first. -/
def ofEntries (start : Mark) (seen : Std.HashMap Key Tree) (earlier : List (Key × Mark × Tree)) :
    List (Node × Node) → Except Error (List (Key × Mark × Tree))
  | [] => .ok earlier.reverse
  | (k, v) :: rest =>
    match ofNode k, ofNode v with
    | .error e, _ => .error e
    | _, .error e => .error e
    | .ok keyTree, .ok value =>
      match keyTree.toKey with
      | .error f => .error (.value f)
      | .ok key =>
        match key.identity? with
        | none => ofEntries start seen ((key, k.start, value) :: earlier) rest
        | some id =>
          match seen[id]? with
          | some first => .error (duplicate start key k.start value first)
          | none => ofEntries start (seen.insert id value) ((key, k.start, value) :: earlier) rest

end

/-- The tree of a document, if it is not empty. -/
def ofText (document : Text) : Except Error (Option Tree) := do
  match ← Node.ofText document with
  | none => return none
  | some n => return some (← ofNode n)

end Tree
end Yaml
end TypedErrors
