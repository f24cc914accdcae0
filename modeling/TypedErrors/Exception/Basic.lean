import TypedErrors.Exception.Class
import TypedErrors.Exception.Value

/-! # Exceptions

An exception is a standard one with arguments, or one that wraps a context and perhaps a cause, which is an
exception again. An exception that wraps a context also knows its origin, the exception that it was raised from. -/

namespace TypedErrors

/-- A context: its class, its text, the text of its kind, and the class of exception that wraps it. -/
structure ErrorContext where
  name : String
  text : Text
  kind : Text
  wrapper : String
deriving DecidableEq, Inhabited

/-- A failed system call: its number, its reason, and the files involved. -/
structure SystemFailure where
  errno : Value
  reason : Value
  file : Option Value := none
  otherFile : Option Value := none
deriving Inhabited

inductive Exn where
  | standard (cls : String) (args : List Value) (failure? : Option SystemFailure)
  | wrapped (cls : String) (context : ErrorContext) (cause : Option Exn) {origin : Option Exn}
deriving Inhabited

namespace Exn

/-- Two to five arguments of a system error describe a failure. The files are then no longer arguments. -/
def systemError (cls : String) (args : List Value) : Exn :=
  match args with
  | errno :: reason :: more =>
    if 3 < more.length then .standard cls args none
    else
      let cls :=
        match cls, errno with
        | "OSError", .int n => (systemErrorClass? n).getD cls
        | "OSError", .bool true => (systemErrorClass? 1).getD cls
        | _, _ => cls
      let given (i : Nat) : Option Value := (more[i]?).filter (!·.isNone)
      let isCount : Bool :=
        match given 0 with
        | some (.int _) | some (.bool _) | some (.float _) => cls == "BlockingIOError"
        | _ => false
      match given 0 with
      | some file =>
        if isCount then .standard cls args (some { errno, reason })
        else .standard cls [errno, reason] (some { errno, reason, file := some file, otherFile := given 2 })
      | none => .standard cls args (some { errno, reason })
  | _ => .standard cls args none

/-- A standard exception. -/
def ofArgs (cls : String) (args : List Value) : Exn :=
  let cls := ClassTable.canonical cls
  if ClassTable.isBelow "OSError" ClassTable.standard cls then systemError cls args
  else .standard cls args none

def cls : Exn → String
  | .standard c _ _ => c
  | .wrapped c _ _ => c

/-- An exception raised from another one. The origin of a standard exception is not kept. -/
def raisedFrom (x origin : Exn) : Exn :=
  match x with
  | .wrapped cls context cause => @wrapped cls context cause (some origin)
  | x => x

/-- The text of arguments: nothing, the single one, or all of them as a tuple. -/
def argsText : List Value → Text
  | [] => []
  | [v] => v.shown
  | vs => Value.displayTuple vs

def failureText (f : SystemFailure) : Text :=
  let place :=
    match f.file, f.otherFile with
    | some a, some b => Text.ofString ": " ++ a.display ++ Text.ofString " -> " ++ b.display
    | some a, none => Text.ofString ": " ++ a.display
    | none, _ => []
  Text.ofString "[Errno " ++ f.errno.shown ++ Text.ofString "] " ++ f.reason.shown ++ place

/-- The text of a standard exception. A missing key is shown quoted, and of a syntax error only the first
argument. -/
def standardText (cls : String) (args : List Value) : Option SystemFailure → Text
  | some f => failureText f
  | none =>
    if ClassTable.isBelow "SyntaxError" ClassTable.standard cls then (args.headD .none).shown
    else if ClassTable.isBelow "KeyError" ClassTable.standard cls then
      match args with
      | [v] => v.display
      | args => argsText args
    else argsText args

/-- The text: that of the context, and below it that of the cause. -/
def text : Exn → Text
  | .standard cls args failure? => standardText cls args failure?
  | .wrapped _ context none => context.text
  | .wrapped _ context (some cause) =>
    context.text ++ Text.ofString "\n---- source ----\n" ++ cause.text

/-- The display form. -/
def display : Exn → Text
  | .standard cls args _ =>
    Text.ofString (cls ++ "(") ++ Value.displayItems args ++ Text.ofString ")"
  | .wrapped cls context none =>
    Text.ofString (cls ++ "(") ++ context.text ++ Text.ofString ", cause=None)"
  | .wrapped cls context (some cause) =>
    Text.ofString (cls ++ "(") ++ context.text ++ Text.ofString ", cause=" ++ cause.display ++
      Text.ofString ")"

end Exn
end TypedErrors
