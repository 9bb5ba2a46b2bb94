import Arbor.CommandLine.Number
import Arbor.Format

/-!
# Arguments of the command line

The arguments after the name of the program are flags, parameters with a value, and
the path of a source. A value is joined to its parameter or is the next argument, and
then it is looked at only when another flag or parameter comes or the arguments end.
So an argument that means nothing is found before a value next to it that is wrong.
-/

namespace Arbor

namespace CommandLine

/-- Said without a value. -/
inductive Flag
  | eval
  | repl
  | verbose
  | help
  | version
  deriving DecidableEq

/-- Said with a value. -/
inductive Parameter
  | format
  | config
  | maxStack
  | maxSymbols
  deriving DecidableEq

namespace Flag

def name : Flag → String
  | eval => "eval"
  | repl => "repl"
  | verbose => "verbose"
  | help => "help"
  | version => "version"

/-- How a flag is spoken of. -/
def text (f : Flag) : String := "--" ++ f.name

end Flag

namespace Parameter

def name : Parameter → String
  | format => "format"
  | config => "config"
  | maxStack => "max-stack"
  | maxSymbols => "max-symbols"

/-- How a parameter is spoken of. -/
def text (p : Parameter) : String := s!"--{p.name} <{p.name}>"

end Parameter

/-- How the path of a source is spoken of. -/
def pathText : String := "[path]"

/-- A flag or a parameter. -/
inductive Switch
  | flag (f : Flag)
  | parameter (p : Parameter)

namespace Switch

def all : List (String × Switch) :=
  [Flag.eval, .repl, .verbose, .help, .version].map (fun f => (f.name, flag f)) ++
    [Parameter.format, .config, .maxStack, .maxSymbols].map fun p => (p.name, parameter p)

/-- The switch of a name behind two dashes. -/
def ofName? (name : String) : Option Switch := all.lookup name

/-- The switch of a letter behind one dash. -/
def ofLetter? : Char → Option Switch
  | 'e' => some (flag .eval)
  | 'v' => some (flag .verbose)
  | 'h' => some (flag .help)
  | 'V' => some (flag .version)
  | 'f' => some (parameter .format)
  | 'c' => some (parameter .config)
  | _ => none

end Switch

/-- Why arguments make no sense. -/
inductive ArgumentError
  | unexpected (argument : String)
  | unexpectedValue (value : String) (f : Flag)
  | noValue (p : Parameter)
  /-- The value is none of the possible ones. -/
  | badValue (value : String) (p : Parameter)
  | badNumber (value : String) (p : Parameter) (e : NumberError)
  | negative (value : String) (p : Parameter) (n : Int)
  /-- Something is said twice. -/
  | repeated (what : String)
  /-- One thing is said after another that it does not go with. -/
  | conflict (first second : String)
  deriving DecidableEq

namespace ArgumentError

def message : ArgumentError → String
  | unexpected argument => s!"unexpected argument '{argument}' found"
  | unexpectedValue value f =>
    s!"unexpected value '{value}' for '{f.text}' found; no more were expected"
  | noValue p => s!"a value is required for '{p.text}' but none was supplied"
  | badValue value p => s!"invalid value '{value}' for '{p.text}'"
  | badNumber value p e => s!"invalid value '{value}' for '{p.text}': {e.message}"
  | negative value p n =>
    s!"invalid value '{value}' for '{p.text}': {n} is not in 0..{Integer.largest}"
  | repeated what => s!"the argument '{what}' cannot be used multiple times"
  | conflict first second => s!"the argument '{first}' cannot be used with '{second}'"

end ArgumentError

/-- What the arguments say. -/
structure Arguments where
  path : Option String := none
  format : Option Format := none
  config : Option String := none
  maxStack : Option Nat := none
  maxSymbols : Option Nat := none
  eval : Bool := false
  repl : Bool := false
  verbose : Bool := false
  deriving DecidableEq

/-- Why arguments are not followed. -/
inductive Stop
  | error (e : ArgumentError)
  /-- Help is asked for. -/
  | help
  /-- The version is asked for. -/
  | version
  deriving DecidableEq

/-- What a value may belong to. -/
inductive Slot
  | parameter (p : Parameter)
  | path

/-- What has been understood of the arguments so far. -/
structure Reading where
  arguments : Arguments := {}
  /-- What a value is waited for, or the value that has come and not been looked at. -/
  pending : Option (Slot × Option String) := none
  /-- A path has come. -/
  hasPath : Bool := false
  /-- From here on there are only paths. -/
  onlyPaths : Bool := false
  /-- What does not go together. It counts only if nothing else is wrong. -/
  clash : Option ArgumentError := none

namespace Reading

/-- The number that a value of a parameter spells. -/
def number (value : String) (p : Parameter) : Except Stop Nat :=
  match CommandLine.number value with
  | .error e => throw (.error (.badNumber value p e))
  | .ok n => if n < 0 then throw (.error (.negative value p n)) else return n.toNat

/-- Looks at the value of a parameter. -/
def withValue (r : Reading) (p : Parameter) (value : String) : Except Stop Reading := do
  let a := r.arguments
  let isRepeated := match p with
    | .format => a.format.isSome
    | .config => a.config.isSome
    | .maxStack => a.maxStack.isSome
    | .maxSymbols => a.maxSymbols.isSome
  if isRepeated then throw (.error (.repeated p.text))
  let a ← match p with
    | .format =>
      match Format.ofName? value with
      | some format => pure { a with format := some format }
      | none => throw (.error (if value.isEmpty then .noValue p else .badValue value p))
    | .config => pure { a with config := some value }
    | .maxStack => do pure { a with maxStack := some (← number value p) }
    | .maxSymbols => do pure { a with maxSymbols := some (← number value p) }
  return { r with arguments := a }

/-- Looks at the value that has been put off. -/
def settle (r : Reading) : Except Stop Reading :=
  match r.pending with
  | none => return r
  | some (.parameter p, none) => throw (.error (.noValue p))
  | some (.parameter p, some value) => withValue { r with pending := none } p value
  | some (.path, value) =>
    -- Only now the path counts as given, so a flag before it may rule it out.
    let clash :=
      if r.arguments.repl then some (.conflict Flag.repl.text pathText) else r.clash
    return { r with arguments := { r.arguments with path := value }, pending := none, clash }

/-- Understands a flag. -/
def withFlag (r : Reading) (f : Flag) : Except Stop Reading := do
  let r ← r.settle
  let a := r.arguments
  match f with
  | .help => throw .help
  | .version => throw .version
  | .eval =>
    if a.eval then throw (.error (.repeated f.text))
    return { r with arguments := { a with eval := true } }
  | .verbose =>
    if a.verbose then throw (.error (.repeated f.text))
    return { r with arguments := { a with verbose := true } }
  | .repl =>
    if a.repl then throw (.error (.repeated f.text))
    let clash := if a.path.isSome then some (.conflict pathText f.text) else r.clash
    return { r with arguments := { a with repl := true }, clash }

/-- Understands a parameter, with its value if that is joined to it. -/
def withParameter (r : Reading) (p : Parameter) (value : Option String) :
    Except Stop Reading := do
  let r ← r.settle
  match value with
  | some value => r.withValue p value
  | none => return { r with pending := some (.parameter p, none) }

/-- Understands letters behind one dash. Behind the letter of a parameter comes its value,
    if there is more. -/
def withLetters (r : Reading) : List Char → Except Stop Reading
  | [] => return r
  | c :: rest =>
    match Switch.ofLetter? c with
    | none => throw (.error (.unexpected (String.ofList ['-', c])))
    | some (.flag f) => do withLetters (← r.withFlag f) rest
    | some (.parameter p) =>
      match rest with
      | [] => r.withParameter p none
      | '=' :: value => r.withParameter p (some (String.ofList value))
      | value => r.withParameter p (some (String.ofList value))

/-- Understands a name behind two dashes, with a value behind `=` if there is one. -/
def withName (r : Reading) (argument : List Char) : Except Stop Reading :=
  let name := String.ofList (argument.takeWhile (· != '='))
  let value := match argument.dropWhile (· != '=') with
    | [] => none
    | _ :: value => some (String.ofList value)
  match Switch.ofName? name, value with
  | none, _ => throw (.error (.unexpected ("--" ++ name)))
  | some (.flag f), some value => throw (.error (.unexpectedValue value f))
  | some (.flag f), none => r.withFlag f
  | some (.parameter p), value => r.withParameter p value

/-- Understands an argument without a dash in front. -/
def withPath (r : Reading) (argument : String) : Except Stop Reading := do
  if r.hasPath then throw (.error (.unexpected argument))
  let r ← r.settle
  return { r with pending := some (.path, some argument), hasPath := true }

/-- Understands one more argument. A single dash is a path, and two dashes alone say that
    only paths follow. -/
def next (r : Reading) (argument : String) : Except Stop Reading :=
  if r.onlyPaths then r.withPath argument
  else
    match argument.toList, r.pending with
    | ['-', '-'], _ => return { r with onlyPaths := true }
    | '-' :: '-' :: name, _ => r.withName name
    | '-' :: c :: letters, _ => r.withLetters (c :: letters)
    | _, some (.parameter p, none) =>
      return { r with pending := some (.parameter p, some argument) }
    | _, _ => r.withPath argument

end Reading

/-- What all arguments say. -/
def Arguments.read (arguments : List String) : Except Stop Arguments := do
  let r ← arguments.foldlM Reading.next {}
  let r ← r.settle
  match r.clash with
  | some e => throw (.error e)
  | none => return r.arguments

end CommandLine

end Arbor
