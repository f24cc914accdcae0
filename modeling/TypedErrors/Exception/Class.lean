/-! # Exception classes

Classes of exceptions form a tree. A class may declare conversions, sources paired with the contexts that
they are wrapped in; one that declares none has those of its base. -/

namespace TypedErrors

structure ExceptionClass where
  name : String
  base? : Option String
  conversions? : Option (List (String × String)) := none
deriving DecidableEq, Inhabited

/-- Classes, each before its base. -/
abbrev ClassTable := List ExceptionClass

namespace ClassTable

/-- The names of the base of all classes, of those that an ordinary handler catches, and of those that wrap
a context. -/
def root : String := "BaseException"
def ordinary : String := "Exception"
def wrapper : String := "ContextError"

/-- A class of system errors has two more names. -/
def canonical (name : String) : String :=
  if name = "IOError" ∨ name = "EnvironmentError" then "OSError" else name

/-- The standard classes, by base; a base comes before the classes below it. -/
def standardFamilies : List (String × List String) := [
  ("BaseException", ["BaseExceptionGroup", "GeneratorExit", "KeyboardInterrupt", "SystemExit", "Exception"]),
  ("Exception", ["ArithmeticError", "AssertionError", "AttributeError", "BufferError", "EOFError",
    "ImportError", "LookupError", "MemoryError", "NameError", "OSError", "ReferenceError", "RuntimeError",
    "StopAsyncIteration", "StopIteration", "SyntaxError", "SystemError", "TypeError", "ValueError",
    "Warning"]),
  ("ArithmeticError", ["FloatingPointError", "OverflowError", "ZeroDivisionError"]),
  ("ImportError", ["ModuleNotFoundError"]),
  ("LookupError", ["IndexError", "KeyError"]),
  ("NameError", ["UnboundLocalError"]),
  ("OSError", ["BlockingIOError", "ChildProcessError", "ConnectionError", "FileExistsError",
    "FileNotFoundError", "InterruptedError", "IsADirectoryError", "NotADirectoryError", "PermissionError",
    "ProcessLookupError", "TimeoutError"]),
  ("ConnectionError", ["BrokenPipeError", "ConnectionAbortedError", "ConnectionRefusedError",
    "ConnectionResetError"]),
  ("RuntimeError", ["NotImplementedError", "RecursionError"]),
  ("SyntaxError", ["IndentationError"]),
  ("IndentationError", ["TabError"]),
  ("ValueError", ["UnicodeError"]),
  ("UnicodeError", ["UnicodeDecodeError", "UnicodeEncodeError", "UnicodeTranslateError"]),
  ("Warning", ["BytesWarning", "DeprecationWarning", "EncodingWarning", "FutureWarning", "ImportWarning",
    "PendingDeprecationWarning", "ResourceWarning", "RuntimeWarning", "SyntaxWarning", "UnicodeWarning",
    "UserWarning"])]

/-- The standard classes and the base of the wrapping ones. -/
def standard : ClassTable :=
  { name := wrapper, base? := some ordinary, conversions? := some [] } ::
    (standardFamilies.flatMap fun (base, names) =>
      names.map fun name => { name, base? := some base : ExceptionClass }).reverse ++
    [{ name := root, base? := none }]

/-- Adds a wrapping class. Its base is one that is there already. -/
def extend (t : ClassTable) (name : String) (base? : Option String)
    (conversions? : Option (List (String × String))) : ClassTable :=
  { name, base? := some (base?.getD wrapper), conversions? } :: t

/-- Whether a class is `ancestor` or below it. -/
def isBelow (ancestor : String) : ClassTable → (name : String) → Bool
  | [], name => name = ancestor
  | c :: bases, name =>
    if name = ancestor then true
    else if c.name = name then
      match c.base? with
      | some base => isBelow ancestor bases base
      | none => false
    else isBelow ancestor bases name

/-- The conversions of a class. -/
def conversions : ClassTable → (name : String) → List (String × String)
  | [], _ => []
  | c :: bases, name =>
    if c.name = name then
      match c.conversions?, c.base? with
      | some cs, _ => cs
      | none, some base => conversions bases base
      | none, none => []
    else conversions bases name

end ClassTable

/-- The class for an error number of the operating system. -/
def systemErrorClass? (errno : Int) : Option String :=
  ([(1, "PermissionError"), (2, "FileNotFoundError"), (3, "ProcessLookupError"), (4, "InterruptedError"),
    (10, "ChildProcessError"), (11, "BlockingIOError"), (13, "PermissionError"), (17, "FileExistsError"),
    (20, "NotADirectoryError"), (21, "IsADirectoryError"), (32, "BrokenPipeError"),
    (103, "ConnectionAbortedError"), (104, "ConnectionResetError"), (108, "BrokenPipeError"),
    (110, "TimeoutError"), (111, "ConnectionRefusedError"), (114, "BlockingIOError"),
    (115, "BlockingIOError")] : List (Int × String)).lookup errno

end TypedErrors
