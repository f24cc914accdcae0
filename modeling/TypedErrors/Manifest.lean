import TypedErrors.FilePath
import TypedErrors.Log
import TypedErrors.Source.Load
import TypedErrors.Text.Word
import TypedErrors.Yaml.Tree

/-! # Manifests

A manifest says which sources there are and where their modules go. It is a document with one list of
targets; whatever else it holds is refused at its place. -/

namespace TypedErrors

open Yaml

/-- A source and the module made from it, as written. -/
structure Target where
  source : Text
  output : Text
deriving DecidableEq, Inhabited

structure Manifest where
  targets : List Target := []
  /-- What the paths of targets are relative to. -/
  root : FilePath := {}
deriving DecidableEq, Inhabited

namespace Target

def sourcePath (t : Target) (root : FilePath) : FilePath := root.join (.ofText t.source)

def outputPath (t : Target) (root : FilePath) : FilePath := root.join (.ofText t.output)

end Target

/-- Why a manifest is refused. -/
inductive ManifestError where
  | size (size : Nat)
  | anchors
  | malformed (message : Text)
  | notMapping
  | nodeCount (limit : Int)
  | invalid (location : Text) (reason : Text) (place : Option Span)
deriving DecidableEq

namespace ManifestError

/-- The most characters of a manifest. -/
def sizeLimit : Nat := 1000000

/-- The most nodes of a manifest. -/
def nodeLimit : Nat := 10000

def message : ManifestError → Text
  | .size n => s!"Manifest exceeds maximum size ({grouped n} chars > {grouped sizeLimit} limit)"
  | .anchors => "YAML anchors/aliases are not supported in manifests"
  | .malformed m => Text.ofString "Invalid YAML: " ++ m
  | .notMapping => "Manifest must be a mapping with a \u0060targets\u0060 list"
  | .nodeCount limit => s!"Manifest exceeds maximum node count ({groupedInt limit})"
  | .invalid location reason _ =>
    (if location.isEmpty then Text.ofString "manifest" else location) ++ Text.ofString ": " ++ reason

def span : ManifestError → Option Span
  | .invalid _ _ place => place
  | _ => none

/-- The message with its place, where there is one. -/
def text (e : ManifestError) : Text :=
  match e.span with
  | none => e.message
  | some s => Text.ofString (s.text ++ ": ") ++ e.message

end ManifestError

/-- Why there is no manifest: it is refused, or a scalar in it has no value. -/
inductive ManifestFailure where
  | refused (e : ManifestError)
  | value (f : ValueFault)
deriving DecidableEq

namespace Manifest

/-- Whether an anchor seems to be set: an ampersand with a word after it, at the start of the text or after a
blank, a hyphen or a colon. Quotes and comments do not matter. -/
def hasAnchor : (before : Option CodePoint) → Text → Bool
  | _, [] => false
  | before, p :: ps =>
    let opens := match before with
      | none => true
      | some (.char c) => isBlank c || c == '-' || c == ':'
      | some (.surrogate _) => false
    let names := match ps.head? with
      | some (.char c) => isWordChar c
      | _ => false
    (p == .char '&' && opens && names) || hasAnchor (some p) ps

/-! ### Places

The place of a key or an item is found by its path, such as `targets[0].source`. -/

/-- The path of an entry. -/
def keyPath (base key : Text) : Text := if base.isEmpty then key else base ++ .char '.' :: key

/-- The path of an item. -/
def itemPath (base : Text) (i : Nat) : Text := base ++ Text.ofString s!"[{i}]"

mutual

/-- The paths of the keys and items in a tree, with their places, in the order of the document. -/
def places (base : Text) : Tree → List (Text × Mark)
  | .scalar _ => []
  | .sequence items => itemPlaces base 0 items
  | .mapping entries => entryPlaces base entries

def itemPlaces (base : Text) (i : Nat) : List (Mark × Tree) → List (Text × Mark)
  | [] => []
  | (m, t) :: items =>
    (itemPath base i, m) :: (places (itemPath base i) t ++ itemPlaces base (i + 1) items)

def entryPlaces (base : Text) : List (Key × Mark × Tree) → List (Text × Mark)
  | [] => []
  | (k, m, t) :: entries =>
    (keyPath base k.text, m) :: (places (keyPath base k.text) t ++ entryPlaces base entries)

end

/-- The place recorded for a path; of several the last counts. -/
def placeOf? (table : List (Text × Mark)) (path : Text) : Option Mark := table.reverse.lookup path

/-- What a segment starts with, but the first one. -/
def isSign (p : CodePoint) : Bool := p == .char '.' || p == .char '['

/-- What stands behind an index whose bracket is open: nothing, or a line feed. -/
def afterIndex? (t : Text) : Option Text :=
  let (index, rest) := match t.getLast? with
    | some (.char '\n') => (t.dropLast, Text.ofString "\n")
    | _ => (t, [])
  let digits := index.dropLast
  let isIndex := index.getLast? == some (.char ']') && !digits.isEmpty && digits.all fun p =>
    (p.char?.map Digit.isDecimal).getD false
  if isIndex then some rest else none

/-- A path without its last segment; a path of one segment stays. -/
def parentPath (path : Text) : Text :=
  let last := (path.reverse.takeWhile fun p => !isSign p).reverse
  let front := path.take (path.length - last.length - 1)
  match path[path.length - last.length - 1]? with
  | some (.char '.') => if last.isEmpty then path else front
  | some (.char '[') => ((afterIndex? last).map (front ++ ·)).getD path
  | _ => path

/-- The place of a path, or of the nearest one above it. -/
def nearest? (table : List (Text × Mark)) : (fuel : Nat) → Text → Option Mark
  | 0, _ => none
  | fuel + 1, path =>
    if path.isEmpty then none
    else match placeOf? table path with
      | some m => some m
      | none => nearest? table fuel (parentPath path)

/-! ### Validation -/

inductive Segment where
  | key (name : Text)
  | index (i : Nat)
deriving DecidableEq

/-- The path of a location. -/
def pathOf (location : List Segment) : Text :=
  location.foldl (fun path s => match s with
    | .key name => keyPath path name
    | .index i => itemPath path i) []

/-- What is wrong with a tree, and where in it. -/
structure Misfit where
  location : List Segment
  reason : Text
deriving DecidableEq

def misfit {α : Type} (location : List Segment) (reason : String) : Except Misfit α :=
  .error ⟨location, Text.ofString reason⟩

/-- The value of a key; of several that read the same the last counts. -/
def valueOf? (entries : List (Key × Mark × Tree)) (name : String) : Option Tree :=
  (entries.reverse.find? fun e => e.1.text == Text.ofString name).map (·.2.2)

/-- The text of a field of a target, which ends in `suffix`. -/
def fileName (entries : List (Key × Mark × Tree)) (location : List Segment) (field suffix : String) :
    Except Misfit Text :=
  let location := location ++ [.key (Text.ofString field)]
  match valueOf? entries field with
  | none => misfit location "Field required"
  | some (.scalar (.text t)) =>
    if (Text.ofString suffix).isSuffixOf t then .ok t
    else .error ⟨location,
      Text.ofString s!"Value error, {field} must be a {suffix} file, got '" ++ t ++ Text.ofString "'"⟩
  | some _ => misfit location "Input should be a valid string"

/-- Refuses the first key that is not among those allowed. -/
def onlyKeys (names : List String) (location : List Segment) (entries : List (Key × Mark × Tree)) :
    Except Misfit Unit :=
  match entries.find? fun e => !names.any fun n => e.1.text == Text.ofString n with
  | none => .ok ()
  | some e => misfit (location ++ [.key e.1.text]) "Extra inputs are not permitted"

def target (location : List Segment) : Tree → Except Misfit Target
  | .mapping entries => do
    let source ← fileName entries location "source" ".fl"
    let output ← fileName entries location "output" ".py"
    onlyKeys ["source", "output"] location entries
    return { source, output }
  | _ => misfit location "Input should be a valid dictionary or instance of Target"

def targetsFrom (i : Nat) : List (Mark × Tree) → Except Misfit (List Target)
  | [] => .ok []
  | (_, t) :: items => do
    let first ← target [.key (Text.ofString "targets"), .index i] t
    return first :: (← targetsFrom (i + 1) items)

/-- The targets of a document. The key `root` is allowed and has no effect. -/
def targetsOf (entries : List (Key × Mark × Tree)) : Except Misfit (List Target) := do
  let targets ← match valueOf? entries "targets" with
    | none => pure []
    | some (.sequence items) => targetsFrom 0 items
    | some _ => misfit [.key (Text.ofString "targets")] "Input should be a valid list"
  onlyKeys ["targets", "root"] [] entries
  return targets

/-- Refuses a tree with too many nodes. -/
def checkSize (limit : Int) (t : Tree) : Except ManifestError Unit :=
  if t.fits limit.toNat then .ok () else .error (.nodeCount limit)

/-- The manifest that a tree is. -/
def ofTree (file : String) (root : FilePath) (t : Tree) : Except ManifestError Manifest :=
  match t with
  | .mapping entries => do
    checkSize ManifestError.nodeLimit t
    match targetsOf entries with
    | .ok targets => return { targets, root }
    | .error m =>
      let path := pathOf m.location
      let place := (nearest? (places [] t) (path.length + 1) path).map fun m =>
        ({ file, line := m.line + 1, column := m.column + 1 } : Span)
      throw (.invalid path m.reason place)
  | _ => .error .notMapping

/-- Reads a manifest. An empty document, or one that is null, has no targets. -/
def ofText (file : String) (root : FilePath) (document : Text) : Except ManifestFailure Manifest :=
  if ManifestError.sizeLimit < document.length then .error (.refused (.size document.length))
  else if hasAnchor none document then .error (.refused .anchors)
  else match Tree.ofText document with
    | .error (.value f) => .error (.value f)
    | .error (.problem p) =>
      .error (.refused (.malformed (p.text (document.filterMap CodePoint.char?))))
    | .error (.character code position) =>
      let shown := String.ofList (Quoted.hex (max 4 (Nat.toDigits 16 code).length) code)
      .error (.refused (.malformed (s!"unacceptable character #x{shown}: special characters are not allowed\n  in \"<unicode string>\", position {position}")))
    | .ok none => .ok { root }
    | .ok (some (.scalar .null)) => .ok { root }
    | .ok (some t) => (ofTree file root t).mapError .refused

/-- What is logged when a manifest is read. -/
def record (file : String) (m : Manifest) : LogRecord :=
  let message := s!"Loaded manifest {file} with {m.targets.length} target(s)"
  ⟨.debug, "faultline.manifest", Text.ofString message⟩

end Manifest
end TypedErrors
