import TypedErrors.CommandLine.Grammar

/-! # Commands -/

namespace TypedErrors
namespace CommandLine

inductive Command where
  /-- Generates one module, to a file or to the output. -/
  | generate (source : String) (output? : Option String)
  /-- Reports what is wrong with sources. -/
  | check (sources : List String)
  /-- Generates what a manifest lists. -/
  | build (manifest : String)
deriving DecidableEq

def programVersion : String := "0.1.0"

def mainGrammar : Grammar :=
  { program := "faultline"
    options := [("-h", .help), ("--help", .help), ("--version", .version)]
    arity := .command, positional := "command" }

def generateGrammar : Grammar :=
  { program := "faultline generate"
    options := [("-h", .help), ("--help", .help), ("-o", .output), ("--output", .output)]
    arity := .one, positional := "source" }

def checkGrammar : Grammar :=
  { program := "faultline check", options := [("-h", .help), ("--help", .help)]
    arity := .many, positional := "sources" }

def buildGrammar : Grammar :=
  { program := "faultline build", options := [("-h", .help), ("--help", .help)]
    arity := .optional, positional := "manifest" }

/-- The manifest that is built if none is named. -/
def defaultManifest : String := "faultline.yaml"

/-- Reads the words after the name of a command, with those that have no use. -/
def Command.ofWords (name : String) (words : List String) : Except Stop (Command × List String) :=
  let values (r : Grammar.Reading) : List String := r.values?.getD []
  if name = "generate" then do
    let r ← generateGrammar.read words
    return (.generate ((values r).headD "") r.output?, r.extras.reverse)
  else if name = "check" then do
    let r ← checkGrammar.read words
    return (.check (values r), r.extras.reverse)
  else if name = "build" then do
    let r ← buildGrammar.read words
    return (.build ((values r).headD defaultManifest), r.extras.reverse)
  else
    mainGrammar.refuse (s!"argument command: invalid choice: {(Text.ofString name).display} " ++
      "(choose from 'generate', 'check', 'build')")

/-- The command of a whole command line. -/
def Command.parse (words : List String) : Except Stop Command := do
  let r ← mainGrammar.read words
  let values := r.values?.getD []
  let (command, extras) ← Command.ofWords (values.headD "") values.tail
  let unused := r.extras.reverse ++ extras
  if unused.isEmpty then return command
  else mainGrammar.refuse ("unrecognized arguments: " ++ joinWith " " unused)

/-! ### Texts -/

def usage (program : String) : String :=
  if program = "faultline generate" then "usage: faultline generate [-h] [-o OUTPUT] source\n"
  else if program = "faultline check" then "usage: faultline check [-h] sources [sources ...]\n"
  else if program = "faultline build" then "usage: faultline build [-h] [manifest]\n"
  else "usage: faultline [-h] [--version] \x7bgenerate,check,build\x7d ...\n"

/-- What follows the usage where help is asked for. -/
def helpBody (program : String) : List String :=
  let briefHelp := "  -h, --help  show this help message and exit"
  let help := "  -h, --help            show this help message and exit"
  if program = "faultline generate" then
    ["positional arguments:", "  source                Declaration source (.fl)", "", "options:", help,
      "  -o OUTPUT, --output OUTPUT", "                        Output module (default: stdout)"]
  else if program = "faultline check" then
    ["positional arguments:", "  sources     Declaration sources (.fl)", "", "options:", briefHelp]
  else if program = "faultline build" then
    ["positional arguments:", "  manifest    Manifest file", "", "options:", briefHelp]
  else
    ["Generate Python error types from declarations", "", "positional arguments:",
      "  \x7bgenerate,check,build\x7d",
      "    generate            Generate the module for one source file",
      "    check               Report diagnostics without writing anything",
      "    build               Generate every target of a manifest", "", "options:", help,
      "  --version             show program's version number and exit"]

namespace Stop

/-- What goes to the output. -/
def output : Stop → String
  | .help program => usage program ++ "\n" ++ joinWith "\n" (helpBody program) ++ "\n"
  | .version => "faultline " ++ programVersion ++ "\n"
  | .refused _ _ => ""

/-- What is reported. -/
def report : Stop → String
  | .refused program message => usage program ++ s!"{program}: error: {message}\n"
  | _ => ""

def exitCode : Stop → Nat
  | .refused _ _ => 2
  | _ => 0

end Stop
end CommandLine
end TypedErrors
