import TypedErrors.Code.Render
import TypedErrors.ErrorType.Build
import TypedErrors.Generated.Module
import TypedErrors.Log

/-! # Generation

From a source to the text of a module. The declarations are taken one after another; one that is refused is
reported and left out, and the names at module level belong to whoever claims them first. -/

namespace TypedErrors

/-- What became of a declaration. -/
structure Outcome where
  declaration : Declaration
  /-- The conversions that were bound. -/
  bound : List Conversion := []
  /-- What was generated, also when its names turn out to be taken. -/
  generated? : Option GeneratedType := none
  /-- Why the declaration is refused. -/
  fault? : Option Fault := none
deriving Inhabited

namespace Outcome

/-- The generated type of a declaration that is not refused. -/
def accepted? (o : Outcome) : Option GeneratedType :=
  match o.fault? with
  | none => o.generated?
  | some _ => none

/-- The report of a refusal. -/
def diagnostic? (o : Outcome) : Option Diagnostic :=
  match o.fault? with
  | some (.report d) => some ((d.withSpan o.declaration.span).withPath o.declaration.ident)
  | _ => none

/-- What ends the run. -/
def abort? (o : Outcome) : Option Abort :=
  match o.fault? with
  | some (.abort a) => some a
  | _ => none

def log (o : Outcome) : List LogRecord :=
  let debug (logger message : String) : LogRecord := ⟨.debug, logger, Text.ofString message⟩
  let bound := o.bound.map fun c =>
    debug "faultline.builder" s!"Bound conversion {c.source.text} -> {c.function}"
  let generated := o.generated?.toList.map fun g =>
    debug "faultline.codegen" (s!"Generated {g.type.ident}: {g.type.kindCases.length} kind case(s), " ++
      s!"{g.type.conversions.length} conversion(s)")
  let refused := o.diagnostic?.toList.map fun d =>
    ⟨.debug, "faultline.pipeline",
      Text.ofString s!"Declaration {o.declaration.ident} failed: " ++ d.text⟩
  bound ++ generated ++ refused

end Outcome

namespace Generation

/-- Names at module level and their owners. -/
abbrev Owners := List (String × String)

def preludeOwners : Owners := Generated.preludeNames.map fun n => (n, "the generated prelude")

/-- Claims the names that imports bind. A name of the prelude cannot be imported; of two imports with one
name the first owns it. -/
def claimImports (owners : Owners) : List Import → Owners × List Diagnostic
  | [] => (owners, [])
  | i :: rest =>
    if Generated.preludeNames.contains i.boundName then
      let (owners, ds) := claimImports owners rest
      (owners, (Diagnostic.duplicateName i.boundName "the generated prelude").withSpan i.span :: ds)
    else claimImports (owners ++ [(i.boundName, "use " ++ i.path.text)]) rest

/-- The first of the names that has an owner, or that stands twice among them. -/
def taken? (owners : Owners) (ident : String) (seen : List String) :
    List String → Option (String × String)
  | [] => none
  | n :: ns =>
    match owners.lookup n with
    | some owner => some (n, owner)
    | none => if seen.contains n then some (n, ident) else taken? owners ident (n :: seen) ns

/-- Claims the names of a generated type: all of them or none. -/
def claim (owners : Owners) (g : GeneratedType) : Except Fault Owners :=
  match taken? owners g.type.ident [] g.moduleNames with
  | some (name, owner) => refuse (.duplicateName name owner)
  | none => .ok (owners ++ g.moduleNames.map fun n => (n, g.type.ident))

/-- Takes the declarations in order, up to one that ends the run. -/
def declare (s : Settings) (owners : Owners) : List Declaration → List Outcome
  | [] => []
  | d :: ds =>
    let bound := ErrorType.boundConversions s d
    match ErrorType.build s d >>= GeneratedType.ofErrorType with
    | .error (.abort a) => [{ declaration := d, bound, fault? := some (.abort a) }]
    | .error f => { declaration := d, bound, fault? := some f } :: declare s owners ds
    | .ok g =>
      match claim owners g with
      | .error f =>
        { declaration := d, bound, generated? := some g, fault? := some f } :: declare s owners ds
      | .ok owners => { declaration := d, bound, generated? := some g } :: declare s owners ds

/-- What became of the declarations of a source file. -/
def outcomes (s : Settings) (f : SourceFile) : List Outcome :=
  declare s (claimImports preludeOwners f.imports).1 f.declarations

end Generation

/-- The text of a module, the reports, and the names of the types in it. -/
structure GenerationResult where
  code : String
  diagnostics : List Diagnostic := []
  types : List String := []
deriving DecidableEq, Inhabited

/-- Nothing was refused. -/
def GenerationResult.isOk (r : GenerationResult) : Bool := r.diagnostics.isEmpty

/-- Why there is no result at all. -/
inductive GenerationError where
  | limit (e : LimitError)
  | abort (a : Abort)
  | nullInFilename
  | nullInCode
deriving DecidableEq

def GenerationError.message : GenerationError → Text
  | .limit e => Text.ofString e.message
  | .abort a => a.message
  | .nullInFilename => Text.ofString "embedded null character"
  | .nullInCode => Text.ofString "source code string cannot contain null bytes"

namespace Generation

/-- A null character stands in a text. -/
def hasNull (s : String) : Bool := s.toList.contains '\x00'

/-- The result for a source file. -/
def ofSourceFile (s : Settings) (f : SourceFile) : Except GenerationError GenerationResult :=
  let outcomes := outcomes s f
  match outcomes.findSome? (·.abort?) with
  | some a => .error (.abort a)
  | none =>
    let types := outcomes.filterMap (·.accepted?)
    let code := (Generated.module s f.filename f.imports types).render
    if hasNull f.filename then .error .nullInFilename
    else if hasNull code then .error .nullInCode
    else .ok
      { code
        diagnostics := (claimImports preludeOwners f.imports).2 ++ outcomes.filterMap (·.diagnostic?)
        types := types.map (·.type.ident) }

/-- The result for a source. A source that cannot be read has no code and one report. -/
def ofSource (s : Settings) (filename source : String) : Except GenerationError GenerationResult :=
  match loadSource s.limits filename source with
  | .error (.limit e) => .error (.limit e)
  | .error (.grammar d) => .ok { code := "", diagnostics := [d] }
  | .ok f => ofSourceFile s f

/-- What is logged on the way to a result. -/
def log (s : Settings) (filename source : String) : List LogRecord :=
  match loadSource s.limits filename source with
  | .error _ => []
  | .ok f =>
    let steps := (outcomes s f).flatMap (·.log)
    match ofSourceFile s f with
    | .error _ => steps
    | .ok r =>
      let summary := s!"Generated {r.types.length} error type(s) from {filename} " ++
        s!"({r.diagnostics.length} diagnostic(s))"
      steps ++ [⟨.info, "faultline.pipeline", Text.ofString summary⟩]

end Generation

/-- The failure of a run that allows no refusal. -/
def refusalMessage (ds : List Diagnostic) : Text :=
  Text.ofString "Generation errors: " ++
    ((ds.map fun d => d.message).intersperse (Text.ofString "; ")).flatten

end TypedErrors
