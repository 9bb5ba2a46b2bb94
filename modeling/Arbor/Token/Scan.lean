import Arbor.Token
import Arbor.Text.Quoted

/-!
# From text to tokens

A text is cut into *lexemes*, each the longest that starts where it starts:
`spelled` is the rest of the lexeme after its first character, `ofLexeme?` the
token a lexeme denotes. Spaces, tabs and carriage returns between lexemes are
skipped. The first lexeme that denotes no token ends the scan; it is a character
that starts no lexeme, a lone `!`, or a literal that does not fit 64 bits.
-/

namespace Arbor

/-- The first place of a text that holds no token. -/
structure ScanError where
  /-- How many bytes stand before it. -/
  start : Nat
  /-- The lexeme found there. -/
  text : String
  deriving DecidableEq

namespace ScanError

/-- How many bytes there are up to the end of the lexeme. -/
def stop (e : ScanError) : Nat := e.start + e.text.utf8ByteSize

def message (e : ScanError) : String :=
  s!"unexpected input {Text.quote e.text} at byte {e.start}"

end ScanError

namespace Token

/-- Skipped between lexemes. Line breaks are not: they are tokens. -/
def isBlank (c : Char) : Bool := c == ' ' || c == '\t' || c == '\r'

/-- Starts a name. -/
def isNameStart (c : Char) : Bool := c.isAlpha || c == '_'

/-- Goes on a name. -/
def isNamePart (c : Char) : Bool := c.isAlphanum || c == '_'

/-- The characters after `c` that belong to the longest lexeme starting with `c`,
    when `rest` follows it. -/
def spelled (c : Char) (rest : List Char) : List Char :=
  if c.isDigit then rest.takeWhile Char.isDigit
  else if isNameStart c then rest.takeWhile isNamePart
  else if c == '=' || c == '!' then (rest.take 1).filter (· == '=')
  else []

/-- A name, unless it is one of the three keywords. -/
def ofName (name : String) : Token :=
  if name = "true" then boolean true
  else if name = "false" then boolean false
  else if name = "nil" then nil
  else ident name

/-- A literal, if a 64-bit integer has its value. -/
def ofDigits? (digits : List Char) : Option Token :=
  let value := Nat.ofDigitChars 10 digits 0
  if value ≤ Integer.largest then some (number value) else none

/-- The token that a lexeme denotes. -/
def ofLexeme? : List Char → Option Token
  | ['=', '='] => some equals
  | ['!', '='] => some notEquals
  | ['='] => some assign
  | ['+'] => some plus
  | ['-'] => some minus
  | ['*'] => some star
  | ['/'] => some slash
  | ['('] => some leftParen
  | [')'] => some rightParen
  | ['\n'] => some terminator
  | [';'] => some terminator
  | [] => none
  | c :: rest =>
    if c.isDigit then ofDigits? (c :: rest)
    else if isNameStart c then some (ofName (String.ofList (c :: rest)))
    else none

/-- Scans `text`, before which stand `start` bytes holding the tokens `found`, the
    last one first. -/
def scanFrom (text : List Char) (start : Nat) (found : List Token) :
    Except ScanError (List Token) :=
  match text with
  | [] => .ok found.reverse
  | c :: rest =>
    if isBlank c then scanFrom rest (start + c.utf8Size) found
    else
      let lexeme := String.ofList (c :: spelled c rest)
      match ofLexeme? (c :: spelled c rest) with
      | some token =>
        scanFrom (rest.drop (spelled c rest).length) (start + lexeme.utf8ByteSize) (token :: found)
      | none => .error ⟨start, lexeme⟩
termination_by text.length
decreasing_by all_goals simp only [List.length_cons, List.length_drop]; omega

/-- The tokens of a text, or the first place where there is none. -/
def scan (source : String) : Except ScanError (List Token) := scanFrom source.toList 0 []

end Token

end Arbor
