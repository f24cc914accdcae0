import TypedErrors.CommandLine.Command
import TypedErrors.CommandLine.Host
import TypedErrors.Generation
import TypedErrors.Manifest
import TypedErrors.Settings.Resolve
import TypedErrors.Text.UpperCase

/-! # Running commands

A source that cannot be read or generated is reported, and the others are still taken. Only some failures end
a run at once. -/

namespace TypedErrors
namespace CommandLine

/-- What ends a run without an exit code. -/
inductive Failure where
  | settings (faults : List Settings.Fault)
  | unknownLevel (name : String)
  | file (e : FileError)
  | generation (e : GenerationError)
  | value (f : Yaml.ValueFault)

def Failure.message : Failure → Text
  | .settings faults =>
    let parts := faults.map fun (field, misfit) => s!"{field.name} ({misfit.name})"
    Text.ofString ("Invalid settings: " ++ joinWith ", " parts)
  | .unknownLevel name => Text.ofString s!"Unknown level: {(Text.ofString name).display}"
  | .file e => Text.ofString e.message
  | .generation e => e.message
  | .value f => f.message

/-- The severities from which on records are shown, by name. -/
def thresholds : List (String × Nat) :=
  [("CRITICAL", 50), ("FATAL", 50), ("ERROR", 40), ("WARN", 30), ("WARNING", 30), ("INFO", 20),
    ("DEBUG", 10), ("NOTSET", 0)]

/-- What commands share. -/
structure Session (m : Type → Type) where
  host : Host m
  settings : Settings
  threshold : Nat

variable {m : Type → Type} [Monad m]

/-- A part of a run. -/
abbrev Action (m : Type → Type) (α : Type) := ExceptT Failure m α

/-- Ends the run if the system refuses. -/
def orFail {α : Type} (path : FilePath) (x : m (Except FileErrorKind α)) : Action m α := do
  match ← x with
  | .ok a => return a
  | .error kind => throw (.file ⟨kind, path.text⟩)

def line (t : Text) : Text := t ++ Text.ofString "\n"

/-- Makes a directory in one that exists, and says whether that one is missing. A directory that is there
already is no obstacle. -/
def makeOne (host : Host m) (path : FilePath) : Action m Bool := do
  match ← host.makeDirectory path with
  | .ok () => return true
  | .error .notFound => return false
  | .error kind => if ← host.isDirectory path then return true else throw (.file ⟨kind, path.text⟩)

/-- Makes a directory and those above it, by its segments from the last to the first. -/
def makeDirectories (host : Host m) (root : PathRoot) : (reversed : List Text) → Action m Unit
  | [] => do
    let path : FilePath := { root }
    if !(← makeOne host path) then throw (.file ⟨.notFound, path.text⟩)
  | last :: above => do
    let path : FilePath := { root, segments := above.reverse ++ [last] }
    if !(← makeOne host path) then
      makeDirectories host root above
      if !(← makeOne host path) then throw (.file ⟨.notFound, path.text⟩)

namespace Session

def report (s : Session m) (t : Text) : Action m Unit := s.host.report (line t)

def log (s : Session m) (records : List LogRecord) : Action m Unit :=
  (records.filter fun r => s.threshold ≤ r.level.severity).forM fun r => s.report r.text

/-- Reads a file with its line ends unified. The system's refusals are reported under a name. -/
def readText? (s : Session m) (name : Text) (path : FilePath) : Action m (Option String) := do
  match ← s.host.read path with
  | .ok content => return some (String.ofList (unifyLineEnds content.toList))
  | .error kind =>
    let e : FileError := ⟨kind, path.text⟩
    if kind.isOfPath then throw (.file e)
    s.report (name ++ Text.ofString (": " ++ e.message))
    return none

/-- The code generated from a source, if nothing about it is reported. -/
def generate? (s : Session m) (path : FilePath) : Action m (Option String) := do
  let some source ← s.readText? path.text path | return none
  s.log (Generation.log s.settings path.string source)
  match Generation.ofSource s.settings path.string source with
  | .error (.limit e) =>
    s.report (path.text ++ Text.ofString (": " ++ e.message))
    return none
  | .error e => throw (.generation e)
  | .ok r =>
    r.diagnostics.forM fun d => s.report d.text
    return if r.isOk then some r.code else none

def generate (s : Session m) (source : String) (output? : Option String) : Action m Nat := do
  let some code ← s.generate? (.ofString source) | return 1
  match output? with
  | some output =>
    if output.isEmpty then s.host.print (Text.ofString code)
    else
      orFail (.ofString output) (s.host.write (.ofString output) code)
      s.log [⟨.info, "faultline.cli", Text.ofString ("Wrote " ++ output)⟩]
  | none => s.host.print (Text.ofString code)
  return 0

/-- Checks all sources, even if one of them fails. -/
def check (s : Session m) : List String → Action m Nat
  | [] => return 0
  | source :: sources => do
    let code? ← s.generate? (.ofString source)
    let status ← s.check sources
    return if code?.isSome then status else 1

/-- Generates one target of a manifest, and says whether that went well. -/
def buildTarget (s : Session m) (root : FilePath) (t : Target) : Action m Bool := do
  let some code ← s.generate? (t.sourcePath root) | return false
  let output := t.outputPath root
  makeDirectories s.host output.parent.root output.parent.segments.reverse
  orFail output (s.host.write output code)
  s.host.print (line (t.source ++ Text.ofString " -> " ++ t.output))
  return true

def buildTargets (s : Session m) (root : FilePath) : List Target → Action m Nat
  | [] => return 0
  | t :: ts => do
    let isBuilt ← s.buildTarget root t
    let status ← s.buildTargets root ts
    return if isBuilt then status else 1

/-- Builds all targets of a manifest, even if one of them fails. -/
def build (s : Session m) (name : String) : Action m Nat := do
  let path := FilePath.ofString name
  let some content ← s.readText? (Text.ofString name) path | return 1
  match Manifest.ofText path.string path.parent (Text.ofString content) with
  | .error (.value f) => throw (.value f)
  | .error (.refused e) =>
    s.report (Text.ofString (name ++ ": ") ++ e.text)
    return 1
  | .ok manifest =>
    s.log [manifest.record path.string]
    s.buildTargets manifest.root manifest.targets

def execute (s : Session m) : Command → Action m Nat
  | .generate source output? => s.generate source output?
  | .check sources => s.check sources
  | .build manifest => s.build manifest

end Session

/-- The file of variables in the working directory. -/
def envFilePath : FilePath := .ofString ".env"

/-- Reads the file of variables, if there is one. -/
def readEnvFile? (host : Host m) : Action m (Option String) := do
  match ← host.read envFilePath with
  | .ok content => return some content
  | .error .notFound | .error .notDirectory | .error .isDirectory => return none
  | .error kind => throw (.file ⟨kind, envFilePath.text⟩)

/-- Runs a command line: the settings come first, then the words. The result is an exit code. -/
def run (host : Host m) (environment : List (String × String)) (words : List String) : Action m Nat := do
  let envFile? ← readEnvFile? host
  match Settings.resolve { environment, envFile? } with
  | .error faults => throw (.settings faults)
  | .ok settings =>
    let level := upperString settings.logLevel
    match thresholds.lookup level with
    | none => throw (.unknownLevel level)
    | some threshold =>
      match Command.parse words with
      | .error stop =>
        host.print (Text.ofString stop.output)
        host.report (Text.ofString stop.report)
        return stop.exitCode
      | .ok command => Session.execute { host, settings, threshold } command

end CommandLine
end TypedErrors
