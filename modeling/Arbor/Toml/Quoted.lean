import Arbor.Text.CodePoint
import Arbor.Text.Reader

/-!
# Strings and keys of TOML documents

A string stands in double quotes, where a backslash starts an escape, or in single
quotes, where every character stands for itself. Three quotes in place of one
allow line ends within the string, and one or two quotes that do not close it.
A key is a string, or plain letters, digits, `_` and `-`; dots join the parts of a
path of keys.
-/

namespace Arbor

namespace Toml

open Reader

/-- Paths have fewer keys than this, and values fewer brackets around them. -/
def depthLimit : Nat := 80

def isSpace (c : Char) : Bool := c == ' ' || c == '\t'

/-- Not a control character; a tab is none. -/
def isPlain (c : Char) : Bool := c == '\t' || (32 ≤ c.toNat && c.toNat != 127)

/-- Spaces and tabs, or none. -/
def space : Reader Unit := do let _ ← span isSpace

def newline : Reader Unit := orElse (literal ['\n']) (literal ['\r', '\n'])

def comment : Reader Unit := do
  literal ['#']
  let _ ← span isPlain

/-- The end of a line, or of the document. -/
def lineEnd : Reader Unit :=
  orElse newline fun text => if text.isEmpty then .ok ((), []) else .error (.refusal text)

/-- What may follow on a line that is complete. -/
def lineRest : Reader Unit := do
  space
  let _ ← optional comment
  lineEnd

/-! ### Escapes -/

/-- A character by its code point, in exactly so many hexadecimal digits. -/
def codePoint (width : Nat) : Reader Char := fun text =>
  let digits := text.take width
  if digits.length = width then
    let value := digits.foldl (fun n c => do some ((← n) * 16 + (← Text.hexValue? c))) (some 0)
    match value.bind Text.char? with
    | some c => .ok (c, text.drop width)
    | none => .error (.mistake text)
  else .error (.mistake text)

/-- The character that an escape stands for. A letter that names none is the mistake,
    and is passed if it is an ASCII character. -/
def escape : Reader (List Char) := do
  literal ['\\']
  let text ← here
  let c ← char fun _ => true
  match c with
  | 'b' => return ['\x08']
  | 'f' => return ['\x0c']
  | 'n' => return ['\n']
  | 'r' => return ['\r']
  | 't' => return ['\t']
  | '"' => return ['"']
  | '\\' => return ['\\']
  | 'u' => return [← codePoint 4]
  | 'U' => return [← codePoint 8]
  | c => mistakeAt (if c.toNat < 128 then text.drop 1 else text)

/-! ### Strings on one line -/

/-- Characters that stand for themselves in double quotes. -/
def plain : Reader (List Char) := run fun c => isPlain c && c != '"' && c != '\\'

/-- A string in double quotes. -/
def basic : Reader String := do
  literal ['"']
  let pieces ← many (orElse plain escape)
  required (literal ['"'])
  return String.ofList pieces.flatten

/-- A string in single quotes. -/
def verbatim : Reader String := do
  literal ['\'']
  let text ← span fun c => isPlain c && c != '\''
  required (literal ['\''])
  return String.ofList text

/-! ### Strings of several lines -/

/-- A backslash at the end of a line takes away all space and line ends up to the next
    other character. -/
def continuation : Reader (List Char) := do
  literal ['\\']
  space
  newline
  let _ ← many (orElse newline (do let _ ← char isSpace))
  return []

/-- One or two quotes that something follows. -/
def innerQuotes (quote : Char) (next : Reader Unit) : Reader (List Char) :=
  orElse
    (do literal [quote, quote]; ahead next; return [quote, quote])
    (do literal [quote]; ahead next; return [quote])

/-- A string between three quotes and three quotes, made of pieces without quotes in
    them. A line end behind the opening quotes does not count. -/
def long (quote : Char) (piece : Reader (List Char)) : Reader String := do
  let delimiter := literal [quote, quote, quote]
  delimiter
  required do
    let _ ← optional newline
    let start ← many piece
    let middle ← many do
      let quotes ← innerQuotes quote (do let _ ← piece)
      return quotes ++ (← many piece).flatten
    let last ← optional (innerQuotes quote delimiter)
    delimiter
    return String.ofList (start.flatten ++ middle.flatten ++ last.getD [])

/-- The line end, which is kept in a string as a single character. -/
def keptNewline : Reader (List Char) := do
  newline
  return ['\n']

/-- A string in three double quotes. -/
def longBasic : Reader String :=
  long '"' (orElse plain (orElse continuation (orElse escape keptNewline)))

/-- A string in three single quotes. -/
def longVerbatim : Reader String :=
  long '\'' (orElse (run fun c => isPlain c && c != '\'') keptNewline)

/-- A string of one of the four kinds. -/
def quoted : Reader String :=
  orElse longBasic (orElse basic (orElse longVerbatim verbatim))

/-! ### Keys -/

/-- A key without quotes. -/
def bare : Reader String :=
  String.ofList <$> run fun c => c.isAlphanum || c == '_' || c == '-'

/-- A path of keys: the last one, and the ones before it. -/
def path : Reader (List String × String) := do
  let text ← here
  let part : Reader String := do
    space
    let key ← orElse basic (orElse verbatim bare)
    space
    return key
  let first ← part
  let more ← many (do literal ['.']; part)
  if depthLimit ≤ more.length + 1 then
    set text
    refuse
  match more.reverse with
  | [] => return ([], first)
  | last :: parents => return (first :: parents.reverse, last)

end Toml

end Arbor
