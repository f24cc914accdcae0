import TypedErrors.Yaml.BlockScalar
import TypedErrors.Yaml.PlainScalar
import TypedErrors.Yaml.QuotedScalar

/-! # From characters to tokens

Block structure shows in the indentation alone, and a key only by the colon after it. So the scanner holds
a stack of indentations and, for each level of brackets, the token that may turn out to start a key; when
the colon comes the key token is put in front of it. -/

namespace TypedErrors
namespace Yaml

/-- The two kinds of brackets. -/
inductive Bracket where
  | square
  | curly
deriving DecidableEq, Inhabited

/-- A token that may start a key on one line. -/
structure KeyCandidate where
  /-- How many tokens stand before it. -/
  position : Nat
  /-- Nothing but a key can stand there. -/
  isRequired : Bool
  mark : Mark
deriving Inhabited

structure Scan where
  cursor : Cursor
  /-- The tokens so far, the last one first. -/
  tokens : List Token := []
  /-- How many tokens there are. -/
  count : Nat := 0
  /-- Brackets that are open, the innermost first. -/
  brackets : List Bracket := []
  /-- The column of the innermost block, -1 outside of all blocks. -/
  indent : Int := -1
  outerIndents : List Int := []
  /-- A key may start here. -/
  allowsKey : Bool := true
  /-- Candidates with the number of brackets open around them. -/
  candidates : List (Nat × KeyCandidate) := []
  /-- A line end or a comment stands between the last token and the cursor. -/
  isParted : Bool := false
  isDone : Bool := false
  /-- More than the number of characters to come. -/
  bound : Nat
deriving Inhabited

/-- How many characters a key may have. -/
def keyReach : Nat := 1024

namespace Scan

abbrev Step := Scan → Except Error Scan

def inFlow (s : Scan) : Bool := !s.brackets.isEmpty

def level (s : Scan) : Nat := s.brackets.length

def candidate? (s : Scan) : Option KeyCandidate := s.candidates.lookup s.level

def push (s : Scan) (t : Token) : Scan := 
  { s with tokens := t :: s.tokens, count := s.count + 1, isParted := false }

/-- A token without characters of its own. -/
def pushEmpty (s : Scan) (k : TokenKind) : Scan := s.push ⟨k, s.cursor.mark, s.cursor.mark⟩

/-- Takes `n` characters as a token. -/
def take (s : Scan) (k : TokenKind) (n : Nat) : Scan :=
  let after := s.cursor.forward n
  { s.push ⟨k, s.cursor.mark, after.mark⟩ with cursor := after }

def misplaced (s : Scan) (message : String) : Error :=
  .problem { message := Text.ofString message, mark := s.cursor.mark }

def missingColon (s : Scan) (k : KeyCandidate) : Error :=
  .problem
    { context? := some ("while scanning a simple key", k.mark)
      message := "could not find expected ':'", mark := s.cursor.mark }

/-- A key is on one line and not too long. -/
def isStale (s : Scan) (k : KeyCandidate) : Bool :=
  k.mark.line != s.cursor.mark.line || keyReach < s.cursor.mark.index - k.mark.index

/-- Drops the candidates that the cursor has left behind. -/
def dropStale : Step := fun s =>
  match s.candidates.find? fun c => s.isStale c.2 && c.2.isRequired with
  | some (_, k) => .error (s.missingColon k)
  | none => .ok { s with candidates := s.candidates.filter fun c => !s.isStale c.2 }

/-- Drops the candidate of the current level. -/
def dropCandidate : Step := fun s =>
  match s.candidate? with
  | none => .ok s
  | some k =>
    if k.isRequired then .error (s.missingColon k)
    else .ok { s with candidates := s.candidates.filter fun c => c.1 != s.level }

/-- Makes the next token a candidate, where a key may start. -/
def addCandidate : Step := fun s => do
  if !s.allowsKey then return s
  let isRequired := !s.inFlow && s.indent == s.cursor.mark.column
  let s ← s.dropCandidate
  let k : KeyCandidate := { position := s.count, isRequired, mark := s.cursor.mark }
  return { s with candidates := (s.level, k) :: s.candidates }

/-- Closes the blocks that are indented further than a column; `outer` holds the indentations around. -/
def unwindTo (column : Int) (s : Scan) (indent : Int) : (outer : List Int) → Scan
  | [] => { s with indent, outerIndents := [] }
  | o :: os =>
    if column < indent then unwindTo column (s.pushEmpty .blockEnd) o os
    else { s with indent, outerIndents := o :: os }

def unwind (s : Scan) (column : Int) : Scan :=
  if s.inFlow then s else unwindTo column s s.indent s.outerIndents

/-- Opens a block at a column that is indented further. -/
def openBlock? (s : Scan) (column : Int) : Option Scan :=
  if s.indent < column then some { s with indent := column, outerIndents := s.indent :: s.outerIndents }
  else none

/-- A block of the given kind starts at the cursor, unless it is open. -/
def openBlock (s : Scan) (k : TokenKind) : Scan :=
  match s.openBlock? s.cursor.mark.column with
  | some s => s.pushEmpty k
  | none => s

def streamEnd : Step := fun s => do
  let s ← (s.unwind (-1)).dropCandidate
  return { s.pushEmpty .streamEnd with allowsKey := false, candidates := [], isDone := true }

/-- A document boundary. -/
def boundary (k : TokenKind) : Step := fun s => do
  let s ← (s.unwind (-1)).dropCandidate
  return { s.take k 3 with allowsKey := false }

def openBracket (b : Bracket) (k : TokenKind) : Step := fun s => do
  let s ← s.addCandidate
  return { s.take k 1 with brackets := b :: s.brackets, allowsKey := true }

def closeBracket (k : TokenKind) : Step := fun s => do
  let s ← s.dropCandidate
  return { s.take k 1 with brackets := s.brackets.tail, allowsKey := false }

def flowEntry : Step := fun s => do
  let s ← dropCandidate { s with allowsKey := true }
  return s.take .flowEntry 1

/-- An indicator that opens a block where none is open. -/
def indicator (token block : TokenKind) (refusal : String) (allowsKeyInFlow : Bool) : Step := fun s => do
  if !s.inFlow && !s.allowsKey then throw (s.misplaced refusal)
  let s := if s.inFlow then s else s.openBlock block
  let s ← dropCandidate { s with allowsKey := allowsKeyInFlow || !s.inFlow }
  return s.take token 1

def blockEntry : Step :=
  indicator .blockEntry .blockSequenceStart "sequence entries are not allowed here" true

def key : Step := indicator .key .blockMappingStart "mapping keys are not allowed here" false

/-- Turns a candidate into a key: its token goes in front, and before it the start of the block that it
opens. -/
def settleKey (s : Scan) (k : KeyCandidate) : Scan :=
  let insert (s : Scan) (kind : TokenKind) : Scan :=
    let (later, earlier) := s.tokens.splitAt (s.count - k.position)
    { s with tokens := later ++ ⟨kind, k.mark, k.mark⟩ :: earlier, count := s.count + 1 }
  let s := insert { s with candidates := s.candidates.filter fun c => c.1 != s.level } .key
  let s := if s.inFlow then s else match s.openBlock? k.mark.column with
    | some s => insert s .blockMappingStart
    | none => s
  { s with allowsKey := false }

def value : Step := fun s =>
  match s.candidate? with
  | some k => .ok ((s.settleKey k).take .value 1)
  | none => indicator .value .blockMappingStart "mapping values are not allowed here" false s

/-- The characters of the names of anchors. -/
def isAnchorChar (c : Char) : Bool :=
  let n := c.toNat
  !(c == ',' || c == '[' || c == ']' || c == '\x7b' || c == '\x7d') &&
    ((0x21 ≤ n && n ≤ 0x7e) || (0xa0 ≤ n && n ≤ 0xd7ff) || (0xe000 ≤ n && n ≤ 0xfffd && n != 0xfeff) ||
      0x10000 ≤ n)

/-- What may follow the name of an anchor. -/
def endsAnchor (c : Char) : Bool := isGap c || isLineEnd c || "?:,[]\x7b\x7d%@\u0060".contains c

def anchor : Step := fun s => do
  let isAlias := s.cursor.peek == '*'
  let s ← s.addCandidate
  let start := s.cursor.mark
  let (name, after) := s.cursor.next.takeWhile isAnchorChar
  if name.isEmpty || !endsAnchor after.peek then
    throw (.problem
      { context? := some (if isAlias then "while scanning an alias" else "while scanning an anchor", start)
        message := Text.ofString
          ("expected alphabetic or numeric character, but found " ++ shownChar after.peek)
        mark := (if name.isEmpty then s.cursor.next else after).mark })
  let text := String.ofList name
  let kind : TokenKind := if isAlias then .alias text else .anchor text
  return { s.push ⟨kind, start, after.mark⟩ with cursor := after, allowsKey := false }

def tag : Step := fun s => do
  let s ← s.addCandidate
  let (name, after) := s.cursor.takeWhile fun c => !(isGap c || isLineEnd c || (s.inFlow && c == ','))
  return { s.push ⟨.tag (String.ofList name), s.cursor.mark, after.mark⟩ with
    cursor := after, allowsKey := false }

def isDirectiveChar (c : Char) : Bool :=
  c.isAlphanum || c == '-' || c == '_' || c == ':' || c == '.'

/-- A directive fills its line; what it says is not used. -/
def directive : Step := fun s => do
  let s ← (s.unwind (-1)).dropCandidate
  let (name, after) := s.cursor.next.takeWhile isDirectiveChar
  let x := after.peek
  if name.isEmpty || !(after.rest.isEmpty || x == ' ' || isLineEnd x) then
    throw (.problem
      { context? := some ("while scanning a directive", s.cursor.mark)
        message := Text.ofString ("expected alphabetic or numeric character, but found " ++ shownChar x)
        mark := after.mark })
  let line := after.skipWhile (!isEnd ·)
  return { s.push ⟨.directive, s.cursor.mark, after.mark⟩ with
    cursor := (line.lineEnd?.map (·.2)).getD line, allowsKey := false }

def blockScalar : Step := fun s => do
  let s ← dropCandidate { s with allowsKey := true }
  let (t, cursor) ← BlockScalar.read s.indent s.bound s.cursor
  return { s.push t with cursor }

def quotedScalar : Step := fun s => do
  let s ← s.addCandidate
  let (t, cursor) ← QuotedScalar.read s.bound s.cursor
  return { s.push t with cursor, allowsKey := false }

def plainScalar : Step := fun s => do
  let s ← s.addCandidate
  let r := PlainScalar.read s.inFlow (s.indent + 1) s.bound s.cursor
  return { s.push r.token with cursor := r.cursor, allowsKey := r.hasLineEnd }

/-- Whether a colon parts a key from its value. In flow context a gap must follow it inside square brackets,
and after another colon. -/
def startsValue (s : Scan) : Bool :=
  let afterColon := !s.isParted && s.tokens.head?.any (·.kind == .value)
  let needsGap := match s.brackets.head? with
    | none => true
    | some .square => true
    | some .curly => afterColon
  !needsGap || isGap (s.cursor.peek 1)

/-- Reads the token at the cursor. -/
def token : Step := fun s =>
  let s := s.unwind s.cursor.mark.column
  let c := s.cursor
  let x := c.peek
  let atMargin := c.mark.column == 0
  if c.rest.isEmpty then s.streamEnd
  else if x == '%' && atMargin then s.directive
  else if x == '-' && c.isBoundaryLine then s.boundary .documentStart
  else if x == '.' && c.isBoundaryLine then s.boundary .documentEnd
  else if x == '[' then s.openBracket .square .flowSequenceStart
  else if x == '\x7b' then s.openBracket .curly .flowMappingStart
  else if x == ']' then s.closeBracket .flowSequenceEnd
  else if x == '\x7d' then s.closeBracket .flowMappingEnd
  else if x == ',' then s.flowEntry
  else if x == '-' && isGap (c.peek 1) then s.blockEntry
  else if x == '?' && (s.inFlow || isGap (c.peek 1)) then s.key
  else if x == ':' && s.startsValue then s.value
  else if x == '*' || x == '&' then s.anchor
  else if x == '!' then s.tag
  else if (x == '|' || x == '>') && !s.inFlow then s.blockScalar
  else if x == '\'' || x == '"' then s.quotedScalar
  else if PlainScalar.starts s.inFlow c then s.plainScalar
  else .error (.problem
    { context? := none
      message := Text.ofString
        ("while scanning for the next token\nfound character " ++ shownChar x ++ " that cannot start any token")
      mark := c.mark })

/-- Skips what carries no token: spaces, and in flow context tabs; then a comment or a line end with the
empty lines after it, if there is one. -/
def skip (s : Scan) : Scan :=
  let c := s.cursor.skipWhile fun x => x == ' ' || (s.inFlow && x == '\t')
  let parted (c : Cursor) : Scan :=
    { s with cursor := c, isParted := true, allowsKey := s.allowsKey || !s.inFlow }
  if c.peek = '#' then
    parted ((c.skipWhile (!isEnd ·)).next.skipWhile isLineEnd)
  else match c.lineEnd? with
    | some (_, c) => parted (c.skipWhile fun x => isLineEnd x || x == ' ' || x == '\t')
    | none => { s with cursor := c }

end Scan

/-- The tokens of a document, up to its end or to what cannot be read. -/
structure TokenStream where
  tokens : List Token
  failure? : Option Error := none

namespace Scan

/-- The tokens in front of a failure. A reader of tokens waits for a candidate to be settled and looks one
token ahead on a line, so it meets the failure in place of these. -/
def visible (s : Scan) : List Token :=
  let ahead := if s.isParted then s.count else s.count - 1
  (s.tokens.drop (s.count - (s.candidates.map (·.2.position)).foldl min ahead)).reverse

/-- Steps from token to token. -/
def run : (fuel : Nat) → Scan → TokenStream
  | 0, s => { tokens := s.tokens.reverse }
  | fuel + 1, s =>
    if s.isDone then { tokens := s.tokens.reverse }
    else
      let before := s.cursor.mark.index
      let t := s.skip
      match t.dropStale with
      | .error e => { tokens := t.visible, failure? := some e }
      | .ok t =>
        if t.isParted && before < t.cursor.mark.index then run fuel t
        else match t.token >>= dropStale with
          | .error e => { tokens := t.visible, failure? := some e }
          | .ok t => run fuel t

/-- The tokens of a document. A byte order mark at its start is skipped. -/
def ofDocument (document : List Char) : TokenStream :=
  let start : Cursor := { rest := document }
  let start := if start.peek = '\ufeff' then start.next else start
  let bound := document.length + 1
  run (2 * bound) { cursor := start, bound }

end Scan
end Yaml
end TypedErrors
