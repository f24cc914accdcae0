import TypedErrors.Yaml.Scanner

/-! # From tokens to nodes

A node is a scalar, a sequence or a mapping, with the place where it starts. Reading follows the grammar of
the format, one function a production; each of them takes at least one token or leaves at once, which bounds
the depth of the recursion. -/

namespace TypedErrors
namespace Yaml

inductive Node where
  /-- A plain scalar gets its type from its text. -/
  | scalar (start : Mark) (text : Text) (isPlain : Bool) (tag? : Option String)
  | sequence (start : Mark) (items : List Node)
  | mapping (start : Mark) (entries : List (Node × Node))
deriving Inhabited

namespace Node

def start : Node → Mark
  | .scalar m _ _ _ => m
  | .sequence m _ => m
  | .mapping m _ => m

/-- What stands for a node that is left out. -/
def empty (m : Mark) : Node := .scalar m [] true none

end Node

/-- The tokens to come, and the nodes that anchors name. -/
structure NodeSource where
  tokens : List Token
  failure : Error
  anchors : List (String × Node) := []

namespace NodeSource

abbrev Read (α : Type) := NodeSource → Except Error (α × NodeSource)

def peek (s : NodeSource) : Except Error Token :=
  match s.tokens with
  | [] => .error s.failure
  | t :: _ => .ok t

def rest (s : NodeSource) : NodeSource := { s with tokens := s.tokens.tail }

def refuse {α : Type} (context? : Option (String × Mark)) (message : String) (t : Token) :
    Except Error α :=
  .error (.problem { context?, message := Text.ofString (message ++ t.kind.shown), mark := t.start })

/-- Reads a node, or leaves it out if the next token is among `absent`. -/
def orEmpty (node : Read Node) (absent : List TokenKind) (m : Mark) : Read Node := fun s => do
  if absent.contains (← s.peek).kind then return (.empty m, s) else node s

/-- Where a node that is left out after a mapping indicator stands. -/
def absentInBlock : List TokenKind := [.key, .value, .blockEnd]

/-- A token that starts no node: a node with an anchor or a tag may be left out. -/
def other (isBlock : Bool) (start : Mark) (before? : Option Mark) (t : Token) : Read Node := fun s =>
  if before?.isSome then .ok (.empty start, s)
  else
    let kind := if isBlock then "block" else "flow"
    refuse (some (s!"while parsing a {kind} node", start)) "expected the node content, but found " t

/-- What parts the items of a collection in brackets: nothing in front of the first, a comma in front of the
others. The token of the next item, or nothing at the closing bracket. -/
def comma (context : String × Mark) (closing : TokenKind) (isFirst : Bool) : Read (Option Token) :=
  fun s => do
    let t ← s.peek
    if t.kind = closing then return (none, s.rest)
    else if isFirst then return (some t, s)
    else if t.kind = .flowEntry then
      let s := s.rest
      let t ← s.peek
      if t.kind = closing then return (none, s.rest) else return (some t, s)
    else
      let bracket := if closing = .flowSequenceEnd then "]" else "\x7d"
      refuse (some context) ("expected ',' or '" ++ bracket ++ "', but got ") t

mutual

/-- Reads a node. A sequence in a block mapping need not be indented. -/
def node (isBlock allowsFlush : Bool) : (fuel : Nat) → Read Node
  | 0 => fun s => .error s.failure
  | fuel + 1 => fun s => do
    let t ← s.peek
    match t.kind with
    | .alias name =>
      match s.anchors.lookup name with
      | some n => return (n, s.rest)
      | none =>
        throw (.problem
          { message := Text.ofString ("found undefined alias " ++ (Text.ofString name).display)
            mark := t.start })
    | .anchor name =>
      let s := s.rest
      let (tag?, s) ← match (← s.peek).kind with
        | .tag g => pure (some g, s.rest)
        | _ => pure (none, s)
      let (n, s) ← content isBlock allowsFlush (some t.start) tag? fuel s
      return (n, { s with anchors := (name, n) :: s.anchors })
    | .tag g =>
      let s := s.rest
      match (← s.peek).kind with
      | .anchor name =>
        let (n, s) ← content isBlock allowsFlush (some t.start) (some g) fuel s.rest
        return (n, { s with anchors := (name, n) :: s.anchors })
      | _ => content isBlock allowsFlush (some t.start) (some g) fuel s
    | _ => content isBlock allowsFlush none none fuel s

/-- Reads a node after its anchor and its tag, which start at `before?`. -/
def content (isBlock allowsFlush : Bool) (before? : Option Mark) (tag? : Option String) :
    (fuel : Nat) → Read Node
  | 0 => fun s => .error s.failure
  | fuel + 1 => fun s => do
    let t ← s.peek
    let start := before?.getD t.start
    match t.kind with
    | .scalar text isPlain => return (.scalar start text isPlain tag?, s.rest)
    | .flowSequenceStart => flowSequence start t.start true fuel [] s.rest
    | .flowMappingStart => flowMapping start t.start true fuel [] s.rest
    | .blockEntry =>
      if allowsFlush then flushSequence start fuel [] s else other isBlock start before? t s
    | .blockSequenceStart =>
      if isBlock then blockSequence start t.start fuel [] s.rest else other isBlock start before? t s
    | .blockMappingStart =>
      if isBlock then blockMapping start t.start fuel [] s.rest else other isBlock start before? t s
    | _ => other isBlock start before? t s

/-- The entries of a sequence, up to the end of its block. -/
def blockSequence (start opened : Mark) : (fuel : Nat) → List Node → Read Node
  | 0, _ => fun s => .error s.failure
  | fuel + 1, items => fun s =>
    match s.peek with
    | .error e => .error e
    | .ok t =>
      match t.kind with
      | .blockEntry =>
        match orEmpty (node true false fuel) [.blockEntry, .blockEnd] t.stop s.rest with
        | .error e => .error e
        | .ok (n, s) => blockSequence start opened fuel (n :: items) s
      | .blockEnd => .ok (.sequence start items.reverse, s.rest)
      | _ => refuse (some ("while parsing a block collection", opened)) "expected <block end>, but found " t

/-- The entries of a sequence that is not indented. -/
def flushSequence (start : Mark) : (fuel : Nat) → List Node → Read Node
  | 0, _ => fun s => .error s.failure
  | fuel + 1, items => fun s =>
    match s.peek with
    | .error e => .error e
    | .ok t =>
      match t.kind with
      | .blockEntry =>
        match orEmpty (node true false fuel) (.blockEntry :: absentInBlock) t.stop s.rest with
        | .error e => .error e
        | .ok (n, s) => flushSequence start fuel (n :: items) s
      | _ => .ok (.sequence start items.reverse, s)

/-- The entries of a mapping, up to the end of its block. Key and value may be left out. -/
def blockMapping (start opened : Mark) : (fuel : Nat) → List (Node × Node) → Read Node
  | 0, _ => fun s => .error s.failure
  | fuel + 1, entries => fun s =>
    match s.peek with
    | .error e => .error e
    | .ok t =>
      if t.kind = .blockEnd then .ok (.mapping start entries.reverse, s.rest)
      else if t.kind = .key ∨ t.kind = .value then
        let key : Except Error (Node × NodeSource) :=
          if t.kind = .key then orEmpty (node true true fuel) absentInBlock t.stop s.rest
          else .ok (.empty t.start, s)
        match key with
        | .error e => .error e
        | .ok (k, s) =>
          match blockValue fuel s with
          | .error e => .error e
          | .ok (v, s) => blockMapping start opened fuel ((k, v) :: entries) s
      else refuse (some ("while parsing a block mapping", opened)) "expected <block end>, but found " t

/-- A value, if there is a colon before it. -/
def blockValue : (fuel : Nat) → Read Node
  | 0 => fun s => .error s.failure
  | fuel + 1 => fun s => do
    let t ← s.peek
    if t.kind = .value then orEmpty (node true true fuel) absentInBlock t.stop s.rest
    else return (.empty t.start, s)

/-- The items of a sequence in brackets. An item with a colon is a mapping of one entry. -/
def flowSequence (start opened : Mark) (isFirst : Bool) : (fuel : Nat) → List Node → Read Node
  | 0, _ => fun s => .error s.failure
  | fuel + 1, items => fun s =>
    match comma ("while parsing a flow sequence", opened) .flowSequenceEnd isFirst s with
    | .error e => .error e
    | .ok (none, s) => .ok (.sequence start items.reverse, s)
    | .ok (some t, s) =>
      let item : Except Error (Node × NodeSource) :=
        if t.kind = .key then do
          let absent : List TokenKind := [.flowEntry, .flowSequenceEnd]
          let (k, s) ← orEmpty (node false false fuel) (.value :: absent) t.stop s.rest
          let (v, s) ← flowValue absent fuel s
          return (.mapping t.start [(k, v)], s)
        else node false false fuel s
      match item with
      | .error e => .error e
      | .ok (n, s) => flowSequence start opened false fuel (n :: items) s

/-- The entries of a mapping in braces. A colon and the value may be left out. -/
def flowMapping (start opened : Mark) (isFirst : Bool) : (fuel : Nat) → List (Node × Node) → Read Node
  | 0, _ => fun s => .error s.failure
  | fuel + 1, entries => fun s =>
    match comma ("while parsing a flow mapping", opened) .flowMappingEnd isFirst s with
    | .error e => .error e
    | .ok (none, s) => .ok (.mapping start entries.reverse, s)
    | .ok (some t, s) =>
      let absent : List TokenKind := [.flowEntry, .flowMappingEnd]
      let entry : Except Error ((Node × Node) × NodeSource) :=
        if t.kind = .key then do
          let (k, s) ← orEmpty (node false false fuel) (.value :: absent) t.stop s.rest
          let (v, s) ← flowValue absent fuel s
          return ((k, v), s)
        else if t.kind = .value then do
          let (v, s) ← flowValue absent fuel s
          return ((.empty t.stop, v), s)
        else do
          let (k, s) ← node false false fuel s
          return ((k, .empty (← s.peek).start), s)
      match entry with
      | .error e => .error e
      | .ok (e, s) => flowMapping start opened false fuel (e :: entries) s

/-- A value, if there is a colon before it. -/
def flowValue (absent : List TokenKind) : (fuel : Nat) → Read Node
  | 0 => fun s => .error s.failure
  | fuel + 1 => fun s => do
    let t ← s.peek
    if t.kind = .value then orEmpty (node false false fuel) absent t.stop s.rest
    else return (.empty t.start, s)

end

/-- Whether a document that starts with this token needs a mark in front. -/
def isAnnounced (t : Token) : Bool :=
  t.kind == .directive || t.kind == .documentStart || t.kind == .streamEnd

/-- The mark that starts a document, after its directives; nothing at the end of the stream. -/
def openDocument : Read (Option Token) := fun s => do
  if (← s.peek).kind = .streamEnd then return (none, s)
  let skip (k : TokenKind) (ts : List Token) : List Token := ts.dropWhile fun t => t.kind == k
  let s := { s with tokens := skip .directive (skip .documentEnd s.tokens) }
  let t ← s.peek
  if t.kind = .documentStart then return (some t, s.rest)
  else refuse none "expected '<document start>', but found " t

/-- The place of another document after the first, if there is one. -/
def nextDocument? (s : NodeSource) : Except Error (Option Mark) := do
  let t ← s.peek
  if t.kind = .documentEnd then
    let next ← s.rest.peek
    if next.kind ≠ .streamEnd ∧ next.start.line = t.stop.line then
      let shown := "found non-comment content after document end marker, (" ++ next.kind.shown ++ ",)"
      throw (.problem { message := Text.ofString shown, mark := next.start })
    if !isAnnounced next then return some next.start
    return (← openDocument s.rest).1.map (·.start)
  else return (← openDocument s).1.map (·.start)

/-- The only document of a stream, if there is one. -/
def document (fuel : Nat) (s : NodeSource) : Except Error (Option Node) := do
  let absent : List TokenKind := [.directive, .documentStart, .documentEnd, .streamEnd]
  let first : Option (Node × NodeSource) ←
    if isAnnounced (← s.peek) then
      match ← openDocument s with
      | (none, _) => pure none
      | (some _, s) => some <$> orEmpty (node true false fuel) absent (← s.peek).start s
    else some <$> node true false fuel s
  match first with
  | none => return none
  | some (n, s) =>
    match ← nextDocument? s with
    | none => return some n
    | some m =>
      throw (.problem
        { context? := some ("expected a single document in the stream", n.start)
          message := Text.ofString "but found another document", mark := m })

end NodeSource

/-- The place and the number of the first character that no document may hold. -/
def firstUnacceptable? : (position : Nat) → Text → Option (Nat × Nat)
  | _, [] => none
  | i, p :: ps =>
    let n := p.toNat
    if n = 9 ∨ n = 10 ∨ n = 13 ∨ (0x20 ≤ n ∧ n ≤ 0x7e) ∨ n = 0x85 ∨ (0xa0 ≤ n ∧ n ≤ 0xd7ff) ∨
        (0xe000 ≤ n ∧ n ≤ 0xfffd) ∨ 0x10000 ≤ n then firstUnacceptable? (i + 1) ps
    else some (i, n)

/-- The node of a document, if it is not empty. -/
def Node.ofText (document : Text) : Except Error (Option Node) :=
  match firstUnacceptable? 0 document with
  | some (position, code) => .error (.character code position)
  | none =>
    let stream := Scan.ofDocument (document.filterMap CodePoint.char?)
    let failure := stream.failure?.getD
      (.problem { message := Text.ofString "unexpected end", mark := {} })
    let fuel := 3 * stream.tokens.length + 8
    NodeSource.document fuel { tokens := stream.tokens, failure }

end Yaml
end TypedErrors
