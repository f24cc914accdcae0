import TypedErrors.Code.Syntax
import TypedErrors.Proofs.Execution.Key

/-! # Running generated code

What the statements of generated code do: the statements of a module define classes and bind names, and the
functions in it read fields, match patterns and build objects. A step that raises has no value. Annotations
and documentation are not looked at, a name may be any word, and nothing is said about the libraries that are
imported. -/

namespace TypedErrors
namespace Execution
open Code

/-! ### Values -/

/-- Classes are numbered in the order in which they are created. -/
abbrev ClassId := Nat

inductive Value where
  /-- A value from outside, told apart by a number. -/
  | given (n : Nat)
  /-- A value of the libraries. -/
  | foreign
  | text (t : Text)
  /-- The method of a text. -/
  | format (t : Text)
  | formatted (t : Text) (args : List Value)
  | copied (v : Value)
  | copyModule
  | copyFunction
  | dataclass
  | function
  | cls (id : ClassId)
  | object (id : ClassId) (attrs : List (Key × Value))
deriving Inhabited

abbrev Env := List (Key × Value)

structure ClassObject where
  /-- The class itself and all classes above it. -/
  ancestors : List ClassId
  /-- What a data class is built from. -/
  fields : Option (List Key) := none
  attrs : Env := []

abbrev Heap := List ClassObject

namespace Heap

def ancestors (h : Heap) (id : ClassId) : List ClassId := (h[id]?.map (·.ancestors)).getD []

/-- An attribute of a class, its own or inherited. -/
def attr? (h : Heap) (id : ClassId) (a : Key) : Option Value :=
  (h.ancestors id).findSome? fun j => h[j]?.bind (·.attrs.lookup a)

def setAttr (h : Heap) (id : ClassId) (a : Key) (v : Value) : Heap :=
  h.modify id fun c => { c with attrs := (a, v) :: c.attrs }

/-- An object of a data class, built from a value for every field: the first ones by position, the others by
name. -/
def construct (h : Heap) (id : ClassId) (args : List Value) (keywords : Env) : Option Value := do
  let c ← h[id]?
  let fields ← c.fields
  if args.length + keywords.length = fields.length then
    let attrs ← fields.mapM fun k => ((fields.zip args ++ keywords).lookup k).map ((k, ·))
    return .object id attrs
  else none

def isInstance (h : Heap) (v : Value) (id : ClassId) : Bool :=
  match v with
  | .object k _ => (h.ancestors k).contains id
  | _ => false

/-- The fields that positional patterns of a class stand for. -/
def matchArgs (h : Heap) (id : ClassId) : List Key := (h[id]?.bind (·.fields)).getD []

end Heap

namespace Value

def classId? : Value → Option ClassId
  | .cls id => some id
  | _ => none

def isDataclass : Value → Bool
  | .dataclass => true
  | _ => false

def attr? (h : Heap) (a : Key) : Value → Option Value
  | .foreign => some .foreign
  | .text t => if a = .plain "format" then some (.format t) else none
  | .copyModule => if a = .plain "copy" then some .copyFunction else none
  | .cls id => h.attr? id a
  | .object id attrs => attrs.lookup a <|> h.attr? id a
  | _ => none

def apply (h : Heap) (args : List Value) (keywords : Env) : Value → Option Value
  | .cls id => h.construct id args keywords
  | .dataclass => some .dataclass
  | .copyFunction =>
    match args, keywords with
    | [v], [] => some (.copied v)
    | _, _ => none
  | .format t => if keywords.isEmpty then some (.formatted t args) else none
  | _ => none

end Value

/-! ### Expressions -/

/-- What an expression can see: the classes, the class it is written in, and the names that are bound. -/
structure Scope where
  heap : Heap
  owner : String
  look : Key → Option Value

mutual

def eval (s : Scope) : Expr → Option Value
  | .constant (.text t) => some (.text t)
  | .constant _ | .subscript .. | .tuple _ | .list _ | .raw _ => some .foreign
  | .name id => s.look (.within s.owner id)
  | .attribute value a => (eval s value).bind (·.attr? s.heap (.within s.owner a))
  | .call f args keywords => do
    let f ← eval s f
    let args ← evalAll s args
    let keywords ← evalKeywords s keywords
    f.apply s.heap args keywords

def evalAll (s : Scope) : List Expr → Option (List Value)
  | [] => some []
  | x :: xs => do return (← eval s x) :: (← evalAll s xs)

/-- The names of keywords are not names of a class. -/
def evalKeywords (s : Scope) : List Keyword → Option Env
  | [] => some []
  | .mk k x :: ks => do return (.plain k, ← eval s x) :: (← evalKeywords s ks)

end

/-! ### Patterns -/

/-- What two parts of a pattern bind, if both match. -/
def both (a b : Option (Option Env)) : Option (Option Env) := do
  match ← a with
  | none => return none
  | some x => return (← b).map (x ++ ·)

mutual

/-- What a pattern binds when it matches. The wildcard binds nothing, positional patterns go through the fields
of the class in order, and keywords name attributes, as they are written. -/
def bindPattern (s : Scope) (v : Value) : Pattern → Option (Option Env)
  | .capture none => some (some [])
  | .capture (some n) => some (some (if n = "_" then [] else [(.within s.owner n, v)]))
  | .cls type args keywords => do
    match ← eval s type with
    | .cls id =>
      if s.heap.isInstance v id then
        both (bindArgs s v (s.heap.matchArgs id) args) (bindKeywords s v keywords)
      else some none
    | _ => none

def bindArgs (s : Scope) (v : Value) : List Key → List Pattern → Option (Option Env)
  | _, [] => some (some [])
  | [], _ :: _ => none
  | k :: ks, p :: ps =>
    match v.attr? s.heap k with
    | some w => both (bindPattern s w p) (bindArgs s v ks ps)
    | none => some none

def bindKeywords (s : Scope) (v : Value) : List KeywordPattern → Option (Option Env)
  | [] => some (some [])
  | .mk k p :: ks =>
    match v.attr? s.heap (.plain k) with
    | some w => both (bindPattern s w p) (bindKeywords s v ks)
    | none => some none

end

mutual

def patternNames : Pattern → List String
  | .capture none => []
  | .capture (some n) => if n = "_" then [] else [n]
  | .cls _ args keywords => patternNamesAll args ++ keywordPatternNames keywords

def patternNamesAll : List Pattern → List String
  | [] => []
  | p :: ps => patternNames p ++ patternNamesAll ps

def keywordPatternNames : List KeywordPattern → List String
  | [] => []
  | .mk _ p :: ks => patternNames p ++ keywordPatternNames ks

end

/-! ### Functions -/

mutual

/-- The names that a statement of a function binds. -/
def Stmt.captures : Stmt → List String
  | .select _ cases => Case.captures cases
  | _ => []

def Stmt.capturesAll : List Stmt → List String
  | [] => []
  | s :: ss => Stmt.captures s ++ Stmt.capturesAll ss

def Case.captures : List Case → List String
  | [] => []
  | .mk p body :: cs => patternNames p ++ Stmt.capturesAll body ++ Case.captures cs

end

/-- A call that is under way. A name that the function binds anywhere is never looked up outside. -/
structure Call where
  heap : Heap
  globals : Env
  owner : String
  locals : List Key

def Call.scope (c : Call) (env : Env) : Scope where
  heap := c.heap
  owner := c.owner
  look k := if k ∈ c.locals then env.lookup k else c.globals.lookup k

/-- How a statement of a function ends. -/
inductive Flow where
  | next (env : Env)
  | value (v : Value)

mutual

def exec (c : Call) (env : Env) : Stmt → Option Flow
  | .pass => some (.next env)
  | .ret (some x) => (eval (c.scope env) x).map .value
  | .select subject cases => do execCases c env (← eval (c.scope env) subject) cases
  | _ => none

def execAll (c : Call) (env : Env) : List Stmt → Option Flow
  | [] => some (.next env)
  | s :: ss => do
    match ← exec c env s with
    | .next env => execAll c env ss
    | .value v => return .value v

/-- The first case that matches is taken. -/
def execCases (c : Call) (env : Env) (v : Value) : List Case → Option Flow
  | [] => some (.next env)
  | .mk p body :: cs => do
    match ← bindPattern (c.scope env) v p with
    | some bound => execAll c (bound ++ env) body
    | none => execCases c env v cs

end

/-! ### Modules -/

/-- A block of statements under way: a module, or the body of a class, which also sees the names of the
module. The binding that was made last comes first. -/
structure Frame where
  heap : Heap
  bindings : Env
  outer : Option Env := none
  owner : String := ""

namespace Frame

def scope (f : Frame) : Scope where
  heap := f.heap
  owner := f.owner
  look k := f.bindings.lookup k <|> f.outer.bind (·.lookup k)

def bind (f : Frame) (n : String) (v : Value) : Frame :=
  { f with bindings := (.within f.owner n, v) :: f.bindings }

def setAttr (f : Frame) (id : ClassId) (a : String) (v : Value) : Frame :=
  { f with heap := f.heap.setAttr id (.within f.owner a) v }

/-- The frame in which the body of a class begins. -/
def body (f : Frame) (cls : String) : Frame :=
  { heap := f.heap, bindings := [], outer := some (f.outer.getD f.bindings), owner := cls }

end Frame

/-- The fields that the body of a class annotates. -/
def annotated (body : List Stmt) : List String :=
  body.filterMap fun
    | .annotate n _ _ => some n
    | _ => none

/-- The fields of a data class. -/
def dataKeys (cls : String) (names : List String) : List Key := (names.map (.within cls)).eraseDups

/-- The class that a body makes in a frame. -/
def madeClass (b : Frame) (name : String) (bases decorators : List Value) (body : List Stmt) : ClassObject where
  ancestors := b.heap.length :: (bases.filterMap (·.classId?)).flatMap b.heap.ancestors
  fields := if decorators.any (·.isDataclass) then some (dataKeys name (annotated body)) else none
  attrs := b.bindings

/-- A field for which the class has an attribute has it for a default, and cannot stand before one without. -/
def defaultsLast (h : Heap) (c : ClassObject) : Bool :=
  let default? k :=
    (c.attrs.lookup k).isSome || c.ancestors.any fun id => (h[id]?.bind (·.attrs.lookup k)).isSome
  c.fields.all fun fields => (fields.dropWhile (!default? ·)).all default?

mutual

/-- A statement of a module or of the body of a class. The name of a class has no dots, and its qualified name
is not one of its attributes. -/
def load (f : Frame) : Stmt → Option Frame
  | .pass | .annotate .. => some f
  | .function name .. => some (f.bind name .function)
  | .assign target value => do
    let v ← eval f.scope value
    match target with
    | .name n => return if f.outer.isSome && n = "__qualname__" then f else f.bind n v
    | .attribute t a =>
      match ← eval f.scope t with
      | .cls id => return f.setAttr id a v
      | _ => none
    | _ => none
  | .delete targets =>
    let names := targets.filterMap fun
      | .name n => some (Key.within f.owner n)
      | _ => none
    some { f with bindings := f.bindings.filter fun (k, _) => !names.contains k }
  | .cls name bases body decorators _ =>
    if name.toList.contains '.' then none
    else do
      let bases ← evalAll f.scope bases
      let decorators ← evalAll f.scope decorators
      let b ← loadAll (f.body name) body
      let c := madeClass b name bases decorators body
      if defaultsLast b.heap c then
        return { f with heap := b.heap ++ [c] }.bind name (.cls b.heap.length)
      else none
  | _ => none

def loadAll (f : Frame) : List Stmt → Option Frame
  | [] => some f
  | s :: ss => do loadAll (← load f s) ss

end

/-- Calls a function of a module that is written in a class. -/
def Frame.call (m : Frame) (cls : String) (f : Stmt) (args : List Value) : Option Value :=
  match f with
  | .function _ params body _ _ _ =>
    let names := params.map fun p => Key.within cls p.name
    let c : Call :=
      { heap := m.heap, globals := m.bindings, owner := cls
        locals := names ++ (Stmt.capturesAll body).map (.within cls) }
    if names.length = args.length then
      match execAll c (names.zip args) body with
      | some (.value v) => some v
      | _ => none
    else none
  | _ => none

end Execution
end TypedErrors
