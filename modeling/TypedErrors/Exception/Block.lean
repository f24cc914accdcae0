import TypedErrors.Exception.Basic

/-! # Raising context errors

A context is raised as the exception that wraps it. Blocks turn exceptions that leave them into context
errors: a converting block those that a conversion of its class matches, a context block every ordinary
one. -/

namespace TypedErrors

namespace ErrorContext

/-- The exception that wraps a context. Its cause is its origin until it is raised from another exception. -/
def intoError (c : ErrorContext) (cause : Option Exn := none) : Exn := @Exn.wrapped c.wrapper c cause cause

/-- A context wrapped in a given class. -/
def wrapIn (cls : String) (c : ErrorContext) : Exn := @Exn.wrapped cls c none none

def fail (c : ErrorContext) : Except Exn Unit := .error c.intoError

/-- Raises the context unless the test holds. -/
def ensure (test : Bool) (c : ErrorContext) : Except Exn Unit := if test then .ok () else c.fail

/-- A present value is returned, a missing one or an exception raised as the context. -/
def orRaise {α : Type} (c : ErrorContext) : Option (Except Exn α) → Except Exn α
  | none => .error c.intoError
  | some (.error x) => .error ((c.intoError (some x)).raisedFrom x)
  | some (.ok v) => .ok v

end ErrorContext

/-- The classes and contexts of a program, and what its conversions build. -/
structure Registry where
  classes : ClassTable := ClassTable.standard
  contexts : List ErrorContext := []
  /-- The context that a conversion by its name builds for an exception; commonly that is the same for all. -/
  build : String → Exn → Option ErrorContext := fun name _ => contexts.find? (·.name = name)
deriving Inhabited

namespace Registry

def isInstance (r : Registry) (x : Exn) (cls : String) : Bool :=
  r.classes.isBelow (ClassTable.canonical cls) x.cls

/-- Handlers catch ordinary exceptions only. -/
def isOrdinary (r : Registry) (x : Exn) : Bool := r.isInstance x ClassTable.ordinary

def context? (r : Registry) (name : String) : Option ErrorContext :=
  r.contexts.find? (·.name = name)

/-- The context of the conversion of a class that matches an exception: the first in order. -/
def conversion? (r : Registry) (cls : String) (x : Exn) : Option ErrorContext :=
  ((r.classes.conversions cls).find? fun (source, _) => r.isInstance x source).bind
    fun (_, name) => r.build name x

/-- Wraps an exception by a conversion of a class. -/
def convert (r : Registry) (cls : String) (x : Exn) : Option Exn :=
  (r.conversion? cls x).map fun c => c.intoError (some x)

end Registry

/-- A context block builds its context for the exception. -/
inductive Block where
  | converting (cls : String)
  | withContext (build : Exn → ErrorContext)
deriving Inhabited

/-- A context that is the same for all exceptions. -/
instance : Coe ErrorContext (Exn → ErrorContext) := ⟨fun c _ => c⟩

namespace Block

/-- The exception that leaves a block when `x` is raised in it. -/
def leave (r : Registry) (x : Exn) : Block → Exn
  | .converting cls =>
    if r.isOrdinary x then
      match r.convert cls x with
      | some y => y.raisedFrom x
      | none => x
    else x
  | .withContext build => if r.isOrdinary x then ((build x).intoError (some x)).raisedFrom x else x

/-- What becomes of a computation in a block. -/
def run {α : Type} (r : Registry) (b : Block) (x : Except Exn α) : Except Exn α :=
  x.mapError fun e => b.leave r e

/-- The exception that leaves nested blocks, innermost first. -/
def leaveAll (r : Registry) (x : Exn) (blocks : List Block) : Exn := blocks.foldl (leave r) x

end Block
end TypedErrors
