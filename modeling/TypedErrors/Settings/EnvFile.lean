import TypedErrors.Text.Blank

/-! # Files of variables

Such a file has a variable a line, `NAME=value`, with `export` before it if need be. A value may stand in
quotes and then hold line ends; outside of quotes a comment ends it. A variable without an equals sign has
no value. A line that cannot be read is passed over. -/

namespace TypedErrors
namespace EnvFile

def isInlineBlank (c : Char) : Bool := isBlank c && c != '\n' && c != '\r'

def skipInline (cs : List Char) : List Char := cs.dropWhile isInlineBlank

/-- Content up to the closing quote, which no backslash precedes; if there is none, up to the last quote
after a backslash. The rest follows the quote. -/
def splitQuoted (quote : Char) (previous : Char) : List Char → Option (List Char × List Char)
  | [] => none
  | c :: cs =>
    let onward := (splitQuoted quote c cs).map fun (inner, rest) => (c :: inner, rest)
    if c = quote then
      if previous = '\\' then onward <|> some ([], cs) else some ([], cs)
    else onward

/-- Escapes between double quotes. -/
def doubleEscapes : List (Char × Char) :=
  [('\\', '\\'), ('\'', '\''), ('"', '"'), ('a', '\x07'), ('b', '\x08'), ('f', '\x0c'), ('n', '\n'),
    ('r', '\r'), ('t', '\t'), ('v', '\x0b')]

/-- Escapes between single quotes. -/
def singleEscapes : List (Char × Char) := [('\\', '\\'), ('\'', '\'')]

/-- Reads the escapes; a backslash before anything else stays. -/
def unescape (table : List (Char × Char)) : List Char → List Char
  | '\\' :: c :: cs =>
    match table.lookup c with
    | some x => x :: unescape table cs
    | none => '\\' :: unescape table (c :: cs)
  | c :: cs => c :: unescape table cs
  | [] => []

/-- Cuts a comment, which blanks precede. -/
def cutComment : List Char → List Char
  | [] => []
  | c :: cs =>
    if isBlank c && (cs.dropWhile isBlank).head? == some '#' then [] else c :: cutComment cs

/-- Drops the blanks at the end. -/
def trimEnd (cs : List Char) : List Char := (cs.reverse.dropWhile isBlank).reverse

def isLineStop (c : Char) : Bool := c == '\n' || c == '\r'

/-- A value with what follows it. -/
def value? (cs : List Char) : Option (List Char × List Char) :=
  match cs with
  | '\'' :: r => (splitQuoted '\'' ' ' r).map fun (v, rest) => (unescape singleEscapes v, rest)
  | '"' :: r => (splitQuoted '"' ' ' r).map fun (v, rest) => (unescape doubleEscapes v, rest)
  | cs =>
    let (line, rest) := cs.span (!isLineStop ·)
    some (trimEnd (cutComment line), rest)

/-- The name of a variable with what follows it; a comment in its place is none. -/
def name? (cs : List Char) : Option (Option (List Char) × List Char) :=
  match cs with
  | '#' :: _ => some (none, cs)
  | '\'' :: r =>
    let (name, rest) := r.span (· != '\'')
    if name.isEmpty then none else rest.tail?.map fun rest => (some name, rest)
  | cs =>
    let (name, rest) := cs.span fun c => c != '=' && c != '#' && !isBlank c
    if name.isEmpty then none else some (some name, rest)

def dropExport (cs : List Char) : List Char :=
  match cs with
  | 'e' :: 'x' :: 'p' :: 'o' :: 'r' :: 't' :: c :: r => if isInlineBlank c then skipInline r else cs
  | cs => cs

/-- The end of a line, which a comment may precede. -/
def lineEnd? (cs : List Char) : Option (List Char) :=
  let cs := match skipInline cs with
    | '#' :: r => r.dropWhile (!isLineStop ·)
    | r => r
  match cs with
  | [] => some []
  | '\r' :: '\n' :: r => some r
  | c :: r => if isLineStop c then some r else none

/-- What is left after the current line. -/
def nextLine (cs : List Char) : List Char := (cs.dropWhile (!isLineStop ·)).tail

/-- A variable, whose value may be missing. -/
abbrev Binding := List Char × Option (List Char)

/-- Reads one line, with what is left. -/
def line (cs : List Char) : Option Binding × List Char :=
  match name? (dropExport cs) with
  | none => (none, nextLine cs)
  | some (name?, rest) =>
    let (read?, failed) : Option (Option (List Char) × List Char) × List Char :=
      match skipInline rest with
      | '=' :: r => ((value? (skipInline r)).map fun (v, rest) => (some v, rest), skipInline r)
      | r => (some (none, r), r)
    match read? with
    | none => (none, nextLine failed)
    | some (value?, rest) =>
      match lineEnd? rest with
      | none => (none, nextLine rest)
      | some rest => (name?.map fun n => (n, value?), rest)

def lines : (fuel : Nat) → List Char → List Binding
  | 0, _ => []
  | fuel + 1, cs =>
    let cs := cs.dropWhile isBlank
    if cs.isEmpty then []
    else
      let (b?, rest) := line cs
      b?.toList ++ lines fuel rest

/-- What the name of a variable in braces may hold. -/
def isReferencePart (c : Char) : Bool := c != '\x7d' && c != ':'

/-- The names in braces after a dollar sign. -/
def references : List Char → List (List Char)
  | '$' :: '\x7b' :: r => r.takeWhile isReferencePart :: references r
  | _ :: r => references r
  | [] => []

/-- Replaces `${NAME}` by the value of a variable, and `${NAME:-text}` by the text where there is none. -/
def expand (lookup : List Char → Option (List Char)) : (fuel : Nat) → List Char → List Char
  | 0, cs => cs
  | fuel + 1, cs =>
    match cs with
    | [] => []
    | '$' :: '\x7b' :: r =>
      let (name, rest) := r.span isReferencePart
      let found (fallback rest : List Char) : List Char :=
        (lookup name).getD fallback ++ expand lookup fuel rest
      match rest with
      | '\x7d' :: rest => found [] rest
      | ':' :: '-' :: rest =>
        let (fallback, rest) := rest.span (· != '\x7d')
        match rest with
        | '\x7d' :: rest => found fallback rest
        | _ => '$' :: expand lookup fuel ('\x7b' :: r)
      | _ => '$' :: expand lookup fuel ('\x7b' :: r)
    | c :: r => c :: expand lookup fuel r

/-- The variables, the last one first. Values are expanded by the variables before, then by those of the
environment. -/
def resolve (environment : List (List Char × List Char)) (earlier : List Binding) :
    List Binding → List Binding
  | [] => earlier
  | (name, value?) :: rest =>
    let lookup (n : List Char) : Option (List Char) :=
      match earlier.lookup n with
      | some v => some (v.getD [])
      | none => environment.reverse.lookup n
    let value? := value?.map fun v => expand lookup (v.length + 1) v
    resolve environment ((name, value?) :: earlier) rest

/-- The variables of a file, the last one first. -/
def read (environment : List (List Char × List Char)) (file : List Char) : List Binding :=
  let cs := unifyLineEnds file
  resolve environment [] (lines (cs.length + 1) cs)

end EnvFile
end TypedErrors
