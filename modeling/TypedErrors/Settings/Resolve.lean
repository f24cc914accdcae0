import TypedErrors.Number.Numeral
import TypedErrors.Settings
import TypedErrors.Settings.EnvFile
import TypedErrors.Text.LowerCase

/-! # Where settings come from

A setting is given outright, or by a variable of the environment, or by one of the file `.env`, in this
order; the name of its variable has the prefix `FAULTLINE_`, and case does not matter. Numbers may be given
as texts. -/

namespace TypedErrors
namespace Settings

inductive Field where
  | logLevel
  | attributeNamespace
  | modulePrefix
  | runtimeModule
  | maxSourceSize
  | maxDeclarations
deriving DecidableEq

namespace Field

def all : List Field :=
  [logLevel, attributeNamespace, modulePrefix, runtimeModule, maxSourceSize, maxDeclarations]

def name : Field → String
  | .logLevel => "log_level"
  | .attributeNamespace => "attribute_namespace"
  | .modulePrefix => "module_prefix"
  | .runtimeModule => "runtime_module"
  | .maxSourceSize => "max_source_size"
  | .maxDeclarations => "max_declarations"

/-- The name of its variable, in lower case. -/
def variableName (f : Field) : String := "faultline_" ++ f.name

def isNumber : Field → Bool
  | .maxSourceSize => true
  | .maxDeclarations => true
  | _ => false

end Field

/-- A value as it is given. -/
inductive Given where
  | text (s : String)
  | int (n : Int)
  | float (x : Binary64)
  | bool (b : Bool)
  /-- Neither a text nor a number. -/
  | other
deriving DecidableEq

/-- Why a value is refused. -/
inductive Misfit where
  | stringType
  | intType
  | intParsing
  | intParsingSize
  | intFromFloat
  | finiteNumber
deriving DecidableEq

def Misfit.name : Misfit → String
  | .stringType => "string_type"
  | .intType => "int_type"
  | .intParsing => "int_parsing"
  | .intParsingSize => "int_parsing_size"
  | .intFromFloat => "int_from_float"
  | .finiteNumber => "finite_number"

/-- White space in the narrow sense: without the separators of records. -/
def isWhiteSpace (c : Char) : Bool := isBlank c && !(0x1c ≤ c.toNat && c.toNat ≤ 0x1f)

/-- Digits and single underscores between them, then a point with zeros, if need be: the digits. -/
def plainDigits? (cs : List Char) : Option (List Char) :=
  let (whole, rest) := cs.span (· != '.')
  let zeros := rest.tail.all (· == '0')
  if whole.all (fun c => c == '_' || c.isDigit) && Numeral.wellSpaced whole && zeros then
    some (whole.filter (· != '_'))
  else none

/-- Reads an integer: blanks around it do not matter, nor does a fraction of zero. -/
def readInteger (s : String) : Except Misfit Int :=
  let cs := ((s.toList.dropWhile isWhiteSpace).reverse.dropWhile isWhiteSpace).reverse
  let (negative, body) := Numeral.sign cs
  match plainDigits? body with
  | none => .error .intParsing
  | some ds =>
    let significant := ds.dropWhile (· == '0')
    if NumeralError.digitLimit < significant.length then .error .intParsingSize
    else
      let n : Int := Numeral.value 10 ds
      .ok (if negative then -n else n)

/-- The integer that a number is. -/
def wholeNumber (x : Binary64) : Except Misfit Int :=
  let (m, e) := x.decompose
  let size : Nat := if 0 ≤ e then m * Nat.pow 2 e.toNat else m / Nat.pow 2 (-e).toNat
  if x.isNaN || x.isInfinite then .error .finiteNumber
  else if e < 0 ∧ m % Nat.pow 2 (-e).toNat ≠ 0 then .error .intFromFloat
  else if Nat.pow 2 63 ≤ size then .error .intParsingSize
  else .ok (if x.isNegative then -(size : Int) else size)

namespace Given

def toInt : Given → Except Misfit Int
  | .int n => .ok n
  | .bool b => .ok (if b then 1 else 0)
  | .text s => readInteger s
  | .float x => wholeNumber x
  | .other => .error .intType

def toText : Given → Except Misfit String
  | .text s => .ok s
  | _ => .error .stringType

end Given

structure Sources where
  /-- What is given outright, by the names of the settings. -/
  given : List (String × Given) := []
  /-- The variables of the environment; of two with one name the last counts. -/
  environment : List (String × String) := []
  /-- The content of the file of variables, if there is one. -/
  envFile? : Option String := none

namespace Sources

/-- The variables of the file, the last one first. -/
def bindings (s : Sources) : List EnvFile.Binding :=
  EnvFile.read (s.environment.map fun (k, v) => (k.toList, v.toList)) ((s.envFile?.getD "").toList)

/-- The value that `bindings` and the other sources give to a setting. -/
def value? (s : Sources) (bindings : List EnvFile.Binding) (f : Field) : Option Given :=
  let isIts (name : String) : Bool := lowerString name == f.variableName
  s.given.lookup f.name <|>
    ((s.environment.reverse.find? fun e => isIts e.1).map (·.2) <|>
      (bindings.find? fun b => isIts (String.ofList b.1)).bind (·.2.map String.ofList)).map .text

end Sources

/-- What is wrong with a setting. -/
abbrev Fault := Field × Misfit

/-- Puts a value into a setting. -/
def set (s : Settings) (f : Field) (g : Given) : Except Misfit Settings := do
  match f with
  | .logLevel => return { s with logLevel := ← g.toText }
  | .attributeNamespace => return { s with attributeNamespace := ← g.toText }
  | .modulePrefix => return { s with modulePrefix := ← g.toText }
  | .runtimeModule => return { s with runtimeModule := ← g.toText }
  | .maxSourceSize => return { s with limits := { s.limits with maxSourceSize := ← g.toInt } }
  | .maxDeclarations => return { s with limits := { s.limits with maxDeclarations := ← g.toInt } }

/-- The settings, or all that is wrong with them. A setting that nothing gives keeps its default. -/
def resolve (sources : Sources) : Except (List Fault) Settings :=
  let bindings := sources.bindings
  let step (acc : List Fault × Settings) (f : Field) : List Fault × Settings :=
    match sources.value? bindings f with
    | none => acc
    | some g =>
      match acc.2.set f g with
      | .ok s => (acc.1, s)
      | .error m => (acc.1 ++ [(f, m)], acc.2)
  match Field.all.foldl step ([], {}) with
  | ([], s) => .ok s
  | (faults, _) => .error faults

end Settings
end TypedErrors
