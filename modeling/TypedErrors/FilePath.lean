import TypedErrors.Text.CodePoint

/-! # Paths of files

A path is its segments, parted by slashes. Empty segments and single dots say nothing and are left out; two
dots stay. A path from the root starts with a slash, or with exactly two, which are kept apart. -/

namespace TypedErrors

inductive PathRoot where
  | relative
  | slash
  | doubleSlash
deriving DecidableEq, Inhabited

structure FilePath where
  root : PathRoot := .relative
  segments : List Text := []
deriving DecidableEq, Inhabited

namespace FilePath

/-- The stretches between slashes. -/
def split : Text → List Text
  | [] => [[]]
  | p :: ps =>
    if p = .char '/' then [] :: split ps
    else match split ps with
      | [] => [[p]]
      | s :: ss => (p :: s) :: ss

def rootOf (t : Text) : PathRoot :=
  match (t.takeWhile (· == .char '/')).length with
  | 0 => .relative
  | 2 => .doubleSlash
  | _ => .slash

/-- Whether a segment leads anywhere. -/
def isStep (s : Text) : Bool := s != [] && s != Text.ofString "."

def ofText (t : Text) : FilePath := { root := rootOf t, segments := (split t).filter isStep }

def ofString (s : String) : FilePath := ofText (Text.ofString s)

def joinSegments : List Text → Text
  | [] => []
  | [s] => s
  | s :: ss => s ++ .char '/' :: joinSegments ss

/-- The written form; a dot for the path without segments. -/
def text (p : FilePath) : Text :=
  match p.root with
  | .relative => if p.segments.isEmpty then Text.ofString "." else joinSegments p.segments
  | .slash => Text.ofString "/" ++ joinSegments p.segments
  | .doubleSlash => Text.ofString "//" ++ joinSegments p.segments

/-- The written form, without lone surrogates. -/
def string (p : FilePath) : String := String.ofList (p.text.filterMap CodePoint.char?)

/-- A path seen from another; one from the root stays as it is. -/
def join (base p : FilePath) : FilePath :=
  if p.root = .relative then { base with segments := base.segments ++ p.segments } else p

/-- The path without its last segment. -/
def parent (p : FilePath) : FilePath := { p with segments := p.segments.dropLast }

end FilePath
end TypedErrors
