import TypedErrors.Attribute.Adapter
import TypedErrors.Attribute.Parser
import TypedErrors.Text.SortedNames

/-! # Entries

The entries of one namespace in the attribute blocks of a declaration, each with a mark that says whether it
was read. Reading an entry marks it, even when its value is refused; an entry left unmarked is unknown. -/

namespace TypedErrors

/-- A named argument of a namespace block. -/
structure Entry where
  name : String
  node : AttrNode
  isUsed : Bool := false
deriving Inhabited

/-- Entries in order, and the names that were asked for, last one first. -/
structure Entries where
  items : List Entry := []
  requested : List String := []
deriving Inhabited

namespace Entries

/-- An argument of a namespace block is a node with a bare name. -/
def entryOf : AttrArg → Except Fault Entry
  | .literal l => refuse (.unexpectedLiteral l.kind) l.span
  | .node n =>
    match n.path.single? with
    | some i => .ok { name := i.name, node := n }
    | none => refuse (.unexpectedType "path") n.path.span

/-- The entries of one block; blocks of other namespaces have none, whatever they hold. -/
def ofAttribute (ns : String) (a : RawAttribute) : Except Fault (List Entry) :=
  if a.namespace? = some ns then do
    match ← parseAttribute a with
    | .list _ args _ => args.mapM entryOf
    | _ => refuse (.unexpectedType s!"Expected \x60{ns}(...)\x60 list") a.span
  else .ok []

/-- The entries of all blocks of a namespace. -/
def ofAttributes (ns : String) (attrs : List RawAttribute) : Except Fault Entries := do
  return { items := (← attrs.mapM (ofAttribute ns)).flatten }

def names (es : Entries) : List String := es.items.map (·.name)

def size (es : Entries) : Nat := es.items.length

/-- Notes that a name was asked for. -/
def request (es : Entries) (name : String) : Entries := { es with requested := name :: es.requested }

/-- Marks the first entry of a name, and gives its node. -/
def takeFirst (name : String) : List Entry → Option (AttrNode × List Entry)
  | [] => none
  | e :: es =>
    if e.name = name then some (e.node, { e with isUsed := true } :: es)
    else (takeFirst name es).map fun (n, es) => (n, e :: es)

/-- Marks the entries of a name and reads each, up to the first that is refused. -/
def takeEach {α : Type} (name : String) (read : AttrNode → Except Fault (List α)) :
    List Entry → Except Fault (List α) × List Entry
  | [] => (.ok [], [])
  | e :: es =>
    if e.name = name then
      match read e.node with
      | .error f => (.error f, { e with isUsed := true } :: es)
      | .ok xs =>
        let (rest, es) := takeEach name read es
        (rest.map (xs ++ ·), { e with isUsed := true } :: es)
    else
      let (rest, es) := takeEach name read es
      (rest, e :: es)

end Entries

/-- Reading entries. Marks outlive a refusal. -/
abbrev Extract := ExceptT Fault (StateM Entries)

namespace Extract
variable {α : Type}

/-- The value of the first entry of a name, if there is one and its value counts as given. -/
def optional (name : String) (a : Adapter α) : Extract (Option α) := fun es =>
  let es := es.request name
  match Entries.takeFirst name es.items with
  | none => (.ok none, es)
  | some (n, items) => ((a.node n).map fun x => if a.isGiven x then some x else none, { es with items })

/-- Like `optional`, but a value that is not given is reported missing, at the anchor. -/
def required (name : String) (a : Adapter α) (anchor : Option Span) : Extract α := do
  match ← optional name a with
  | some x => return x
  | none => throw (.report ((Diagnostic.missingField name).withSpan anchor))

/-- The values of all entries of a name in one list. -/
def all (name : String) (a : Adapter α) : Extract (List α) := fun es =>
  let es := es.request name
  let (xs, items) := Entries.takeEach name a.listOf.node es.items
  (xs, { es with items })

/-- Refuses the first entry that was not read. Names that were asked for are suggested. -/
def finish : Extract Unit := do
  let es ← get
  match es.items.find? (!·.isUsed) with
  | none => return ()
  | some e =>
    let hints := suggestSimilar (Text.ofString e.name) (sortedNames es.requested)
    throw (.report ((Diagnostic.unknownField e.name hints).withSpan e.node.path.span))

/-- Runs an extraction on the entries of a namespace. -/
def ofAttributes (ns : String) (attrs : List RawAttribute) (x : Extract α) : Except Fault α := do
  let es ← Entries.ofAttributes ns attrs
  (x.run es).1

end Extract
end TypedErrors
