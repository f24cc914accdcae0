import TypedErrors.FilePath
import TypedErrors.Text.Quoted

/-! # File systems

A file system as seen from a working directory: the files and the directories, by the segments that lead to
them. Two dots lead upwards from the working directory, as far as the root. The way back down to it is the way
up shortened, so that every file has one place, however its path is written. -/

namespace TypedErrors

inductive FileErrorKind where
  | notFound
  | alreadyExists
  | notDirectory
  | isDirectory
  | nameTooLong
  /-- A path that cannot be handed to the system. -/
  | nullByte
  /-- A path with lone surrogates, from `start` up to `stop`, that stand for no byte. -/
  | unencodable (surrogate : CodePoint) (start stop : Nat)
  /-- Any other refusal of the system, by its number. -/
  | other (number : Nat) (title : String)
deriving DecidableEq, Inhabited

structure FileError where
  kind : FileErrorKind
  path : Text
deriving DecidableEq, Inhabited

namespace FileErrorKind

def number : FileErrorKind → Nat
  | .notFound => 2
  | .alreadyExists => 17
  | .notDirectory => 20
  | .isDirectory => 21
  | .nameTooLong => 36
  | .nullByte | .unencodable .. => 0
  | .other number _ => number

def title : FileErrorKind → String
  | .notFound => "No such file or directory"
  | .alreadyExists => "File exists"
  | .notDirectory => "Not a directory"
  | .isDirectory => "Is a directory"
  | .nameTooLong => "File name too long"
  | .nullByte => "embedded null byte"
  | .unencodable surrogate start stop =>
    let place := if stop = start + 1 then s!" {Text.display [surrogate]} in position {start}"
      else s!"s in position {start}-{stop - 1}"
    "'utf-8' codec can't encode character" ++ place ++ ": surrogates not allowed"
  | .other _ title => title

/-- Whether it is the path alone that is at fault. -/
def isOfPath : FileErrorKind → Bool
  | .nullByte | .unencodable .. => true
  | _ => false

end FileErrorKind

def FileError.message (e : FileError) : String :=
  if e.kind.isOfPath then e.kind.title
  else s!"[Errno {e.kind.number}] {e.kind.title}: {e.path.display}"

structure FileSystem where
  /-- Files with their content. -/
  files : List (List Text × String) := []
  directories : List (List Text) := []
  /-- Files that the system does not open for reading, and why. -/
  refusals : List (List Text × FileErrorKind) := []
  /-- The names of the working directory and of those above it, up to the root. -/
  trail : List Text := []
deriving DecidableEq, Inhabited

namespace FileSystem

def upward : Text := Text.ofString ".."

/-- Whether a place is the working directory or one above it. -/
def isAbove (place : List Text) : Bool := place.all (· == upward)

def rootPlace (fs : FileSystem) : List Text := List.replicate fs.trail.length upward

def isDirectory (fs : FileSystem) (place : List Text) : Bool :=
  isAbove place || fs.directories.contains place

def content? (fs : FileSystem) (place : List Text) : Option String := fs.files.lookup place

/-- The longest name of a file, in bytes. -/
def nameLimit : Nat := 255

/-- The longest path, in bytes. -/
def pathLimit : Nat := 4095

/-- Whether a code point is written as a single byte: a surrogate may stand for one that is not ASCII. -/
def isByte (p : CodePoint) : Bool := p.toNat < 0x80 || (0xDC80 ≤ p.toNat && p.toNat ≤ 0xDCFF)

def byteLength (t : Text) : Nat :=
  t.foldl (fun n p => n + if isByte p then 1 else if p.toNat < 0x800 then 2
    else if p.toNat < 0x10000 then 3 else 4) 0

/-- What keeps a path from being handed to the system: `start` code points stand before `t`. -/
def pathFault? (start : Nat) : (t : Text) → Option FileErrorKind
  | [] => none
  | p :: ps =>
    if p.char?.isNone && !isByte p then
      some (.unencodable p start (start + 1 + (ps.takeWhile (·.char?.isNone)).length))
    else match pathFault? (start + 1) ps with
      | none => if p = .char '\x00' then some .nullByte else none
      | some e => some e

/-- The place above a directory. The root is above itself. -/
def leave (fs : FileSystem) (here : List Text) : List Text :=
  if isAbove here then
    if here.length < fs.trail.length then here ++ [upward] else here
  else here.dropLast

/-- The place of a name in a directory. -/
def enter (fs : FileSystem) (here : List Text) (name : Text) : List Text :=
  if isAbove here && here.length != 0 && fs.trail[here.length - 1]? == some name then here.dropLast
  else here ++ [name]

/-- One segment further. -/
def step (fs : FileSystem) (here : List Text) (segment : Text) : Except FileErrorKind (List Text) :=
  if nameLimit < byteLength segment then .error .nameTooLong
  else .ok (if segment = upward then fs.leave here else fs.enter here segment)

/-- The place that segments lead to. All but the last must be directories. -/
def walk (fs : FileSystem) (here : List Text) : List Text → Except FileErrorKind (List Text)
  | [] => .ok here
  | [s] => fs.step here s
  | s :: rest => do
    let there ← fs.step here s
    if fs.isDirectory there then fs.walk there rest
    else if (fs.content? there).isSome then throw .notDirectory
    else throw .notFound

def locate (fs : FileSystem) (p : FilePath) : Except FileErrorKind (List Text) :=
  if let some e := pathFault? 0 p.text then .error e
  else if pathLimit < byteLength p.text then .error .nameTooLong
  else fs.walk (if p.root = .relative then [] else fs.rootPlace) p.segments

def read (fs : FileSystem) (p : FilePath) : Except FileErrorKind String := do
  let place ← fs.locate p
  if fs.isDirectory place then throw .isDirectory
  else match fs.content? place, fs.refusals.lookup place with
    | none, _ => throw .notFound
    | some _, some kind => throw kind
    | some content, none => return content

/-- Puts content at a place, in front of which a file may have stood. -/
def put (fs : FileSystem) (place : List Text) (content : String) : FileSystem :=
  if fs.files.any (·.1 == place) then
    { fs with files := fs.files.map fun f => if f.1 == place then (place, content) else f }
  else { fs with files := fs.files ++ [(place, content)] }

def write (fs : FileSystem) (p : FilePath) (content : String) : Except FileErrorKind FileSystem := do
  let place ← fs.locate p
  if fs.isDirectory place then throw .isDirectory else return fs.put place content

/-- Makes one directory. -/
def makeDirectory (fs : FileSystem) (p : FilePath) : Except FileErrorKind FileSystem := do
  let place ← fs.locate p
  if fs.isDirectory place || (fs.content? place).isSome then throw .alreadyExists
  else return { fs with directories := fs.directories ++ [place] }

def isDirectoryAt (fs : FileSystem) (p : FilePath) : Bool :=
  match fs.locate p with
  | .ok place => fs.isDirectory place
  | .error _ => false

/-- The file system that holds some files, with the directories that they need, in the working directory
`/tmp/work`. -/
def ofFiles (files : List (FilePath × String)) : FileSystem :=
  let above (place : List Text) : List (List Text) :=
    (List.range (place.length - 1)).map fun n => place.take (n + 1)
  { files := files.map fun (p, content) => (p.segments, content)
    directories := (files.flatMap fun (p, _) => above p.segments).eraseDups
    trail := [Text.ofString "work", Text.ofString "tmp"] }

end FileSystem
end TypedErrors
