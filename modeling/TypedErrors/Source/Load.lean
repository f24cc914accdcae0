import TypedErrors.Diagnostic
import TypedErrors.Number.Grouped
import TypedErrors.Source.Parser

/-! # Loading

A source is read only within limits on its size and its number of declarations. -/

namespace TypedErrors

structure Limits where
  maxSourceSize : Int := 1000000
  maxDeclarations : Int := 1000
deriving DecidableEq, Inhabited

/-- The limit that a source exceeds. -/
inductive LimitError where
  | sourceSize (size : Nat) (limit : Int)
  | declarationCount (limit : Int)
deriving DecidableEq

def groupedInt (n : Int) : String := (if n < 0 then "-" else "") ++ grouped n.natAbs

def LimitError.message : LimitError → String
  | .sourceSize size limit =>
    s!"Declaration source exceeds maximum size ({grouped size} chars > {groupedInt limit} limit)"
  | .declarationCount limit =>
    s!"Declaration source exceeds maximum declaration count ({groupedInt limit})"

inductive LoadError where
  | limit (e : LimitError)
  | grammar (d : Diagnostic)
deriving DecidableEq

/-- The report of a misfit. Its span has no end. -/
def SyntaxError.diagnostic (file : String) (e : SyntaxError) : Diagnostic :=
  .grammar e.message (some { file, line := e.place.line, column := e.place.column })

/-- Reads a source: its size is checked before, its declarations are counted after it is read. -/
def loadSource (limits : Limits) (file : String) (source : String) : Except LoadError SourceFile :=
  if limits.maxSourceSize < source.length then
    .error (.limit (.sourceSize source.length limits.maxSourceSize))
  else match parseSource file source with
    | .error e => .error (.grammar (e.diagnostic file))
    | .ok f =>
      if f.declarations ≠ [] ∧ limits.maxDeclarations < f.declarations.length then
        .error (.limit (.declarationCount limits.maxDeclarations))
      else .ok f

end TypedErrors
