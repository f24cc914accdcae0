import TypedErrors.FileSystem

/-! # What commands act on

Commands read and write files and print; a host says how. `Host.model` keeps all in a value. -/

namespace TypedErrors
namespace CommandLine

structure Host (m : Type → Type) where
  read : FilePath → m (Except FileErrorKind String)
  write : FilePath → String → m (Except FileErrorKind Unit)
  /-- Makes one directory in one that exists. -/
  makeDirectory : FilePath → m (Except FileErrorKind Unit)
  isDirectory : FilePath → m Bool
  /-- Adds to the output. -/
  print : Text → m Unit
  /-- Adds to the reports. -/
  report : Text → m Unit

/-- Files, and what was printed and reported so far. -/
structure World where
  files : FileSystem := {}
  output : Text := []
  reports : Text := []
deriving DecidableEq, Inhabited

/-- Changes the files, unless that fails. -/
def World.change (f : FileSystem → Except FileErrorKind FileSystem) :
    StateM World (Except FileErrorKind Unit) := fun w =>
  match f w.files with
  | .ok files => (.ok (), { w with files })
  | .error e => (.error e, w)

def Host.model : Host (StateM World) where
  read p := fun w => (w.files.read p, w)
  write p content := World.change fun fs => fs.write p content
  makeDirectory p := World.change fun fs => fs.makeDirectory p
  isDirectory p := fun w => (w.files.isDirectoryAt p, w)
  print t := fun w => ((), { w with output := w.output ++ t })
  report t := fun w => ((), { w with reports := w.reports ++ t })

end CommandLine
end TypedErrors
