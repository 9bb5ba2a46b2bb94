import Arbor.CommandLine.Arguments
import Arbor.Config.Load
import Arbor.Dialogue
import Arbor.Format.Render

/-!
# The command line

What the program does, as a value: the answer to its arguments, its standard input
and the files around it. It prints the tree of a source, or evaluates the source and
prints its value, or holds a dialogue over the lines of its input. The exit status is

* 0 if all went well, and after a dialogue whose input has ended;
* 1 if the configuration, the source or its evaluation fails;
* 2 if the arguments make no sense, and if the build protocol is broken.
-/

namespace Arbor

namespace CommandLine

/-- What the program leaves behind. -/
structure Outcome where
  status : Nat := 0
  output : String := ""
  /-- What is written to standard error. -/
  errors : String := ""
  deriving DecidableEq

namespace Outcome

/-- An error of the user's making. -/
def failed (message : String) : Outcome := { status := 1, errors := s!"error: {message}\n" }

/-- A fault that no source should have. -/
def aborted (message : String) : Outcome := { status := 2, errors := s!"fatal: {message}\n" }

/-- Arguments that make no sense. -/
def misused (e : ArgumentError) : Outcome := { status := 2, errors := s!"error: {e.message}\n" }

/-- A statement without a value. -/
def ofStatementError (e : StatementError) : Outcome :=
  if e.isFatal then aborted e.message else failed e.message

end Outcome

def versionText : String := "goon 0.1.0\n"

def helpText : String :=
  String.join (List.map (· ++ "\n") [
    "Parse and evaluate goon expressions",
    "",
    "Usage: goon [OPTIONS] [path]",
    "",
    "Arguments:",
    "  [path]  Path to a goon source file ('-' or absent reads stdin)",
    "",
    "Options:",
    "  -f, --format <format>            Output format: treeviz, tag, json or yaml " ++
      "(default from config) [possible values: treeviz, tag, json, yaml]",
    "  -e, --eval                       Evaluate the statement and print its value " ++
      "instead of the tree",
    "      --repl                       Read statements from stdin line by line and evaluate them",
    "  -c, --config <config>            Configuration file layered over the built-in defaults",
    "      --max-stack <max-stack>      Build stack cap (0 = unbounded)",
    "      --max-symbols <max-symbols>  Symbol table cap (0 = unbounded)",
    "  -v, --verbose                    Log parse activity to stderr",
    "  -h, --help                       Print help",
    "  -V, --version                    Print version"])

/-- The layers of the configuration that arguments ask for: the file, then what is said
    about single settings. -/
def Arguments.layers (a : Arguments) : List Config.Layer :=
  let file := a.config.toList.map (Config.Layer.file · true)
  let format := a.format.toList.map fun format =>
    Config.Layer.override "output.format" (.string format.name)
  let maxStack := a.maxStack.toList.map fun (n : Nat) =>
    Config.Layer.override "session.max_stack_depth" (.int n)
  let maxSymbols := a.maxSymbols.toList.map fun (n : Nat) =>
    Config.Layer.override "session.max_symbols" (.int n)
  file ++ format ++ maxStack ++ maxSymbols

/-- The interpreter that a program with this configuration starts with. -/
def interpreter (c : Config) : Interpreter :=
  { bounds := c.bounds, session := .new c.limits }

/-- Prints the tree of a source. -/
def print (c : Config) (source : String) : Outcome :=
  match ((Session.new c.limits).parse (.ofGrammar c.bounds) source.toUTF8).result with
  | .ok tree => { output := tree.render c.format c.showValues }
  | .error e => .ofStatementError (.parse e)

/-- Evaluates a source and prints its value. -/
def eval (c : Config) (source : String) : Outcome :=
  match ((interpreter c).interpret source).1 with
  | .ok v => { output := v.text ++ "\n" }
  | .error e => .ofStatementError e

/-- What is said of standard input that is no text. -/
def badInput : String := s!"failed to read stdin: {FileError.notText.message}"

/-- Shown before each line is read. -/
def prompt : String := ">> "

/-- Holds a dialogue over the lines of a text. If the text is not all of the input, what
    follows it cannot be read. -/
def converse (c : Config) (text : String) (isAll : Bool) : Outcome :=
  let lines := (Text.lines text.toList).map String.ofList
  let d := (interpreter c).converse lines
  let said := String.join (d.responses.map fun r => prompt ++ r.text) ++ prompt
  match d.breach with
  | some e => { Outcome.ofStatementError e with output := said }
  | none =>
    if isAll then { output := said ++ "quitting...\n" }
    else { Outcome.failed badInput with output := said }

/-- The source that arguments name, or why there is none. -/
def source (path : Option String) (input : ByteArray) (d : Directory) : Except String String :=
  let ofInput :=
    match Directory.decode input with
    | .ok text => .ok text
    | .error _ => .error badInput
  match path with
  | none | some "-" => ofInput
  | some path =>
    match d.text path with
    | .ok text => .ok text
    | .error e => .error s!"failed to read {path}: {e.message}"

/-- Does what arguments ask for. -/
def perform (a : Arguments) (input : ByteArray) (d : Directory) : Outcome :=
  match Config.load d a.layers with
  | .error e => .failed s!"failed to load configuration: {e.message}"
  | .ok c =>
    if a.repl then
      let (text, isAll) := Text.readable input
      converse c text isAll
    else
      match source a.path input d with
      | .error message => .failed message
      | .ok source => if a.eval then eval c source else print c source

/-- What the program does. -/
def run (arguments : List String) (input : ByteArray) (d : Directory) : Outcome :=
  match Arguments.read arguments with
  | .ok a => perform a input d
  | .error (.error e) => .misused e
  | .error .help => { output := helpText }
  | .error .version => { output := versionText }

/-- The paths that the program may look up: the source's, and the configuration's with
    and without an extension. -/
def paths (arguments : List String) : List String :=
  match Arguments.read arguments with
  | .ok a =>
    a.path.toList ++ a.config.toList ++
      a.config.toList.map fun name => Directory.shorten name ++ ".toml"
  | .error _ => []

/-- The program reads its standard input. -/
def readsInput (arguments : List String) : Bool :=
  match Arguments.read arguments with
  | .ok a => a.repl || a.path.all (· == "-")
  | .error _ => false

end CommandLine

end Arbor
