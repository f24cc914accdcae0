import TypedErrors.Text.Blank

/-! # Backtraces

A snapshot of the stack. When one frame repeats, its repetitions beyond the third are only counted. -/

namespace TypedErrors

structure Frame where
  file : String
  line : Int
  function : String
  source : String := ""
deriving DecidableEq, Inhabited

namespace Frame

/-- Two frames are at one place in the code; the text there is not compared. -/
def samePlace (a b : Frame) : Bool := a.file = b.file && a.line = b.line && a.function = b.function

def text (f : Frame) : String :=
  let source := String.ofList (stripBlanks f.source.toList)
  s!"  File \"{f.file}\", line {f.line}, in {f.function}\n" ++
    (if source.isEmpty then "" else s!"    {source}\n")

end Frame

/-- Frames, outermost first. -/
structure Backtrace where
  frames : List Frame := []
deriving DecidableEq, Inhabited

namespace Backtrace

/-- How many frames at one place are shown. -/
def shownRepeats : Nat := 3

/-- The note on frames that are not shown. -/
def repeatNote (count : Nat) : String :=
  if count ≤ shownRepeats then ""
  else
    let hidden := count - shownRepeats
    let plural := if hidden = 1 then "" else "s"
    s!"  [Previous line repeated {hidden} more time{plural}]\n"

/-- The text of frames after `count` frames at the place of `last`. -/
def textAfter (last : Option Frame) (count : Nat) : List Frame → String
  | [] => repeatNote count
  | f :: fs =>
    if last.any (·.samePlace f) then
      (if count < shownRepeats then f.text else "") ++ textAfter (some f) (count + 1) fs
    else repeatNote count ++ f.text ++ textAfter (some f) 1 fs

def text (b : Backtrace) : String := textAfter none 0 b.frames

end Backtrace
end TypedErrors
