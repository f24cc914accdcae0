import TypedErrors.Yaml.Problem

/-! # Tokens of a document -/

namespace TypedErrors
namespace Yaml

inductive TokenKind where
  | directive
  | documentStart
  | documentEnd
  | streamEnd
  | blockSequenceStart
  | blockMappingStart
  | blockEnd
  | flowSequenceStart
  | flowSequenceEnd
  | flowMappingStart
  | flowMappingEnd
  | key
  | value
  | blockEntry
  | flowEntry
  | alias (name : String)
  | anchor (name : String)
  | tag (name : String)
  | scalar (text : Text) (isPlain : Bool)
deriving DecidableEq, Inhabited

def TokenKind.name : TokenKind → String
  | .directive => "<directive>"
  | .documentStart => "<document start>"
  | .documentEnd => "<document end>"
  | .streamEnd => "<stream end>"
  | .blockSequenceStart => "<block sequence start>"
  | .blockMappingStart => "<block mapping start>"
  | .blockEnd => "<block end>"
  | .flowSequenceStart => "["
  | .flowSequenceEnd => "]"
  | .flowMappingStart => "\x7b"
  | .flowMappingEnd => "\x7d"
  | .key => "?"
  | .value => ":"
  | .blockEntry => "-"
  | .flowEntry => ","
  | .alias _ => "<alias>"
  | .anchor _ => "<anchor>"
  | .tag _ => "<tag>"
  | .scalar _ _ => "<scalar>"

/-- A token with its first place and the place after it. -/
structure Token where
  kind : TokenKind
  start : Mark
  stop : Mark
deriving DecidableEq, Inhabited

/-- The quoted name of a kind, as messages show it. -/
def TokenKind.shown (k : TokenKind) : String := (Text.ofString k.name).display

/-- A character as messages show it. -/
def shownChar (c : Char) : String := Text.display [.char c]

end Yaml
end TypedErrors
