/-! # Terminals

The kinds of token of the declaration language: symbols, words, and the classes of free text. -/

namespace TypedErrors

inductive Terminal where
  | hash | leftParen | rightParen | leftBracket | rightBracket | leftBrace | rightBrace
  | equal | comma | dot | pathSep | colon | pipe | semicolon | ellipsis
  | useWord | asWord | pubWord | inWord | structWord | enumWord | unionWord
  | crateWord | selfWord | superWord
  | name | string | char | int | float | doc
deriving DecidableEq, Inhabited

namespace Terminal

/-- The fixed spelling of a symbol. -/
def symbol? : Terminal → Option String
  | .hash => some "#"
  | .leftParen => some "("
  | .rightParen => some ")"
  | .leftBracket => some "["
  | .rightBracket => some "]"
  | .leftBrace => some "\x7b"
  | .rightBrace => some "\x7d"
  | .equal => some "="
  | .comma => some ","
  | .dot => some "."
  | .pathSep => some "::"
  | .colon => some ":"
  | .pipe => some "|"
  | .semicolon => some ";"
  | .ellipsis => some "..."
  | _ => none

/-- The fixed spelling of a word. -/
def word? : Terminal → Option String
  | .useWord => some "use"
  | .asWord => some "as"
  | .pubWord => some "pub"
  | .inWord => some "in"
  | .structWord => some "struct"
  | .enumWord => some "enum"
  | .unionWord => some "union"
  | .crateWord => some "crate"
  | .selfWord => some "self"
  | .superWord => some "super"
  | _ => none

/-- The terminal in a list of what was expected: symbols but the ellipsis in backquotes. -/
def description : Terminal → String
  | .ellipsis => "ellipsis"
  | .name => "name"
  | .string => "string"
  | .char => "char"
  | .int => "int"
  | .float => "float"
  | .doc => "doc"
  | t => match t.symbol? with
    | some s => "\x60" ++ s ++ "\x60"
    | none => t.word?.getD ""

/-- The symbols, longer ones before their fronts. -/
def symbols : List Terminal :=
  [ellipsis, pathSep, hash, leftParen, rightParen, leftBracket, rightBracket, leftBrace, rightBrace,
    equal, comma, dot, colon, pipe, semicolon]

def words : List Terminal :=
  [useWord, asWord, pubWord, inWord, structWord, enumWord, unionWord, crateWord, selfWord, superWord]

def all : List Terminal := symbols ++ words ++ [name, string, char, int, float, doc]

def isWord (t : Terminal) : Bool := t.word?.isSome

end Terminal
end TypedErrors
