import TypedErrors.CommandLine.Run

/-! # The program

Runs a command line on the files of the system. -/

namespace TypedErrors
namespace Program

/-- The cause of a refusal, by the system's number for it, which may be negated. -/
def kindOf (code : UInt32) (title : String) : FileErrorKind :=
  let number := code.toInt32.toInt.natAbs
  let named : List FileErrorKind := [.notFound, .alreadyExists, .notDirectory, .isDirectory, .nameTooLong]
  (named.find? fun kind => kind.number = number).getD (.other number title)

/-- The number of a refusal that has no other: a text that is not encoded as it should be. -/
def illegalSequence : Nat := 84

def kindOfError : IO.Error → FileErrorKind
  | .alreadyExists _ n t | .inappropriateType _ n t | .interrupted _ n t | .invalidArgument _ n t
  | .noFileOrDirectory _ n t | .noSuchThing _ n t | .permissionDenied _ n t | .resourceExhausted _ n t
  | .hardwareFault n t | .illegalOperation n t | .otherError n t | .protocolError n t | .resourceBusy n t
  | .resourceVanished n t | .timeExpired n t | .unsatisfiedConstraints n t | .unsupportedOperation n t =>
    kindOf n t
  | .unexpectedEof => .other illegalSequence "Unexpected end of file"
  | .userError t => .other illegalSequence t

/-- Acts on a path that the system can take. -/
def attempt {α : Type} (path : FilePath) (act : String → IO α) : IO (Except FileErrorKind α) := do
  match FileSystem.pathFault? 0 path.text with
  | some kind => return .error kind
  | none =>
    match ← (act path.string).toBaseIO with
    | .ok a => return .ok a
    | .error e => return .error (kindOfError e)

def host : CommandLine.Host IO where
  read path := attempt path fun name => IO.FS.readFile name
  write path content := attempt path fun name => IO.FS.writeFile name content
  makeDirectory path := attempt path fun name => IO.FS.createDir name
  isDirectory path := do
    let here ← IO.currentDir
    (here / path.string).isDir
  print t := do (← IO.getStdout).putStr (String.ofList (t.filterMap CodePoint.char?))
  report t := do (← IO.getStderr).putStr (String.ofList (t.filterMap CodePoint.char?))

/-- The variables of the environment that matter: those of settings, and those that the file of variables
refers to. -/
def environment : IO (List (String × String)) := do
  let referred := match ← host.read CommandLine.envFilePath with
    | .ok content => (EnvFile.references content.toList).map String.ofList
    | .error _ => []
  let settings := Settings.Field.all.flatMap fun field => [field.variableName, field.variableName.toUpper]
  (settings ++ referred).filterMapM fun name => do
    if name.isEmpty || name.contains '\x00' then return none
    else return (← IO.getEnv name).map fun value => (name, value)

end Program
end TypedErrors

/-- Runs the command line. What ends it without an exit code is reported. -/
def main (words : List String) : IO UInt32 := do
  let environment ← TypedErrors.Program.environment
  match ← (TypedErrors.CommandLine.run TypedErrors.Program.host environment words).run with
  | .ok exitCode => return exitCode.toUInt32
  | .error failure =>
    TypedErrors.Program.host.report (TypedErrors.CommandLine.line failure.message)
    return 1
