import TypedErrors.Text.Digit
import TypedErrors.Text.Join
import TypedErrors.Text.Quoted

/-! # Words of a command line

A grammar has options and one positional argument. Options may stand anywhere; a long one may be cut short as
long as it stays unique, and its value may follow after an equals sign. After `--` every word is positional. -/

namespace TypedErrors
namespace CommandLine

inductive Flag where
  | help
  | version
  | output
deriving DecidableEq, Inhabited

namespace Flag

def takesValue : Flag → Bool
  | .output => true
  | _ => false

/-- The names of a flag, as messages show them. -/
def title : Flag → String
  | .help => "-h/--help"
  | .version => "--version"
  | .output => "-o/--output"

end Flag

/-- How many words the positional argument takes. A command takes all words that follow, options included. -/
inductive Arity where
  | one
  | many
  | optional
  | command
deriving DecidableEq

structure Grammar where
  program : String
  options : List (String × Flag)
  arity : Arity
  positional : String

/-- Why the words lead to no command: a text was asked for, or something is wrong. -/
inductive Stop where
  | help (program : String)
  | version
  | refused (program message : String)
deriving DecidableEq

/-- A value written in one word with its option, after an equals sign or at once. -/
structure Joined where
  hasEquals : Bool
  value : String
deriving DecidableEq

inductive Word where
  | plain (text : String)
  | separator
  /-- A flag by its full name, with the word and the value in it. -/
  | option (flag? : Option Flag) (name text : String) (value? : Option Joined)
deriving DecidableEq

namespace Word

def text : Word → String
  | .plain t => t
  | .separator => "--"
  | .option _ _ t _ => t

def isOption : Word → Bool
  | .option .. => true
  | _ => false

def isPlain : Word → Bool
  | .plain _ => true
  | _ => false

end Word

/-- The parts of a text around its first equals sign. -/
def splitEquals? (text : String) : Option (String × String) :=
  let (name, rest) := text.toList.span (· != '=')
  rest.tail?.map fun value => (String.ofList name, String.ofList value)

/-- Whether a word is a negative number, with or without a point. -/
def isNegativeNumber (text : String) : Bool :=
  let cs := text.toList
  let cs := if cs.getLast? = some '\n' then cs.dropLast else cs
  match cs with
  | '-' :: ds =>
    let rest := ds.dropWhile Digit.isDecimal
    (rest.isEmpty && !ds.isEmpty) || match rest with
      | '.' :: fraction => !fraction.isEmpty && fraction.all Digit.isDecimal
      | _ => false
  | _ => false

namespace Grammar

/-- Options that a word may be short for. -/
def candidates (g : Grammar) (text : String) : List Word :=
  if text.startsWith "--" then
    let (start, value?) := match splitEquals? text with
      | some (name, value) => (name, some (Joined.mk true value))
      | none => (text, none)
    g.options.filterMap fun (name, flag) =>
      if name.startsWith start then some (.option (some flag) name text value?) else none
  else
    let short := String.ofList (text.toList.take 2)
    g.options.filterMap fun (name, flag) =>
      if name == short then
        some (.option (some flag) name text (some ⟨false, String.ofList (text.toList.drop 2)⟩))
      else if name.startsWith text then some (.option (some flag) name text none)
      else none

def refuse {α : Type} (g : Grammar) (message : String) : Except Stop α := .error (.refused g.program message)

/-- What a word is, in front of the separator. -/
def classify (g : Grammar) (text : String) : Except Stop Word :=
  if !text.startsWith "-" || text == "-" then .ok (.plain text)
  else match g.options.lookup text with
    | some flag => .ok (.option (some flag) text text none)
    | none =>
      match (splitEquals? text).bind fun (name, value) =>
          (g.options.lookup name).map fun flag => Word.option (some flag) name text (some ⟨true, value⟩) with
      | some word => .ok word
      | none =>
        match g.candidates text with
        | [word] => .ok word
        | [] =>
          if isNegativeNumber text || text.contains ' ' then .ok (.plain text)
          else .ok (.option none text text none)
        | words =>
          let names := commas (words.map fun w => match w with
            | .option _ name _ _ => name
            | w => w.text)
          g.refuse s!"ambiguous option: {text} could match {names}"

def classifyAll (g : Grammar) : List String → Except Stop (List Word)
  | [] => .ok []
  | t :: ts =>
    if t = "--" then .ok (.separator :: ts.map .plain)
    else do return (← g.classify t) :: (← g.classifyAll ts)

/-- How many words the positional argument takes at the front. -/
def reach? (g : Grammar) (words : List Word) : Option Nat :=
  let leading := (words.takeWhile (· == .separator)).length
  let rest := words.drop leading
  let plain := (rest.takeWhile Word.isPlain).length
  let trailing (n : Nat) : Nat := ((rest.drop n).takeWhile (· == .separator)).length
  match g.arity with
  | .one => if plain = 0 then none else some (leading + 1 + trailing 1)
  | .many => if plain = 0 then none else some (leading + (rest.takeWhile (!·.isOption)).length)
  | .optional => some (leading + min plain 1 + trailing (min plain 1))
  | .command => if plain = 0 then none else some words.length

/-- What has been read. -/
structure Reading where
  /-- The words of the positional argument, once they are read. -/
  values? : Option (List String) := none
  output? : Option String := none
  /-- Words without a use, the last one first. -/
  extras : List String := []

namespace Reading

/-- Lets flags take effect, in order. -/
def apply (r : Reading) (program : String) : List (Flag × String) → Except Stop Reading
  | [] => .ok r
  | (.help, _) :: _ => .error (.help program)
  | (.version, _) :: _ => .error .version
  | (.output, v) :: rest => apply { r with output? := some v } program rest

end Reading

/-- What an option leaves: flags with their values, the words after it, and a word of its own that has no
use. -/
structure Taken where
  flags : List (Flag × String)
  rest : List Word
  extra? : Option String := none

/-- The value that follows a flag in a cluster, if there is one. -/
def joined? : List Char → Option Joined
  | [] => none
  | '=' :: cs => some ⟨true, String.ofList cs⟩
  | cs => some ⟨false, String.ofList cs⟩

/-- Reads an option. Flags of one letter that take no value may be written together. -/
def takeOption (g : Grammar) (earlier : List (Flag × String)) (flag : Flag) (name : String)
    (rest : List Word) : (fuel : Nat) → (value? : Option Joined) → Except Stop Taken
  | 0, _ => .ok ⟨earlier, rest, none⟩
  | fuel + 1, some joined =>
    let flags := earlier ++ [(flag, "")]
    let ignored : Except Stop Taken :=
      g.refuse s!"argument {flag.title}: ignored explicit argument {(Text.ofString joined.value).display}"
    if flag.takesValue then .ok ⟨earlier ++ [(flag, joined.value)], rest, none⟩
    else match joined.value.toList with
      | [] => ignored
      | c :: cs =>
        if name.startsWith "--" || joined.hasEquals || c == '-' then ignored
        else
          let next := String.ofList ['-', c]
          match g.options.lookup next with
          | some other => takeOption g flags other next rest fuel (joined? cs)
          | none => .ok ⟨flags, rest, some ("-" ++ joined.value)⟩
  | _ + 1, none =>
    if flag.takesValue then
      match rest with
      | .plain value :: rest => .ok ⟨earlier ++ [(flag, value)], rest, none⟩
      | _ => g.refuse s!"argument {flag.title}: expected one argument"
    else .ok ⟨earlier ++ [(flag, "")], rest, none⟩

/-- Takes the words of the positional argument, if it is still to come. The first separator among them
goes, except in front of a command. -/
def takePositional (g : Grammar) (r : Reading) (words : List Word) : Reading × List Word :=
  match r.values?, g.reach? words with
  | none, some n =>
    let texts := (words.take n).map Word.text
    ({ r with values? := some (if g.arity = .command then texts else texts.erase "--") }, words.drop n)
  | _, _ => (r, words)

def readWords (g : Grammar) : (fuel : Nat) → Reading → List Word → Except Stop Reading
  | 0, r, _ => .ok r
  | fuel + 1, r, words =>
    if words.any Word.isOption then
      match words with
      | .option none _ text _ :: rest => readWords g fuel { r with extras := text :: r.extras } rest
      | .option (some flag) name text value? :: rest => do
        let taken ← g.takeOption [] flag name rest (text.length + 2) value?
        let r ← r.apply g.program taken.flags
        readWords g fuel { r with extras := taken.extra?.toList ++ r.extras } taken.rest
      | _ =>
        let (r, rest) := g.takePositional r words
        if rest.length < words.length then readWords g fuel r rest
        else
          let (skipped, rest) := words.span (!·.isOption)
          readWords g fuel { r with extras := (skipped.map Word.text).reverse ++ r.extras } rest
    else
      let (r, rest) := g.takePositional r words
      .ok { r with extras := (rest.map Word.text).reverse ++ r.extras }

/-- Reads the words. The positional argument must be there, unless it is optional. -/
def read (g : Grammar) (words : List String) : Except Stop Reading := do
  let ws ← g.classifyAll words
  let r ← g.readWords (ws.length + 1) {} ws
  if r.values?.isNone then g.refuse s!"the following arguments are required: {g.positional}"
  else return r

end Grammar
end CommandLine
end TypedErrors
