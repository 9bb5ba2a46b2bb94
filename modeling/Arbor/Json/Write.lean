import Arbor.Integer
import Arbor.Json

/-!
# Writing JSON

JSON is written over several lines: every item of an array and every member of an
object has a line of its own, two columns further in than the brackets around
it. Empty arrays and objects stay on one line. In strings only quotes, backslashes
and the characters below the space are escaped.
-/

namespace Arbor

namespace Json

/-- What stands for a character inside a string. -/
def escape (c : Char) : List Char :=
  if c = '"' then ['\\', '"']
  else if c = '\\' then ['\\', '\\']
  else if c = '\x08' then ['\\', 'b']
  else if c = '\x0c' then ['\\', 'f']
  else if c = '\n' then ['\\', 'n']
  else if c = '\r' then ['\\', 'r']
  else if c = '\t' then ['\\', 't']
  else if c.toNat < 0x20 then
    ['\\', 'u', '0', '0', (c.toNat / 16).digitChar, (c.toNat % 16).digitChar]
  else [c]

/-! Each of the following puts a text in front of what follows it. -/

/-- A string between quotes. -/
def quote (s : String) (rest : List Char) : List Char :=
  '"' :: (s.toList.flatMap escape ++ '"' :: rest)

/-- A new line, and the blanks in front of what stands `depth` brackets deep. -/
def newline (depth : Nat) (rest : List Char) : List Char :=
  '\n' :: (List.replicate (2 * depth) ' ' ++ rest)

/-- The name of a member, up to its value. -/
def memberName (depth : Nat) (name : String) (rest : List Char) : List Char :=
  newline depth (quote name (':' :: ' ' :: rest))

mutual

/-- The text of a value that stands `depth` brackets deep. -/
def chars (depth : Nat) : Json → List Char → List Char
  | null, rest => "null".toList ++ rest
  | bool true, rest => "true".toList ++ rest
  | bool false, rest => "false".toList ++ rest
  | int n, rest => (toString n).toList ++ rest
  | float x, rest => x.text.toList ++ rest
  | string s, rest => quote s rest
  | array [], rest => '[' :: ']' :: rest
  | array (item :: items), rest =>
    '[' :: newline (depth + 1) (chars (depth + 1) item (itemChars depth items rest))
  | object [], rest => '\x7b' :: '\x7d' :: rest
  | object ((name, value) :: members), rest =>
    '\x7b' :: memberName (depth + 1) name
      (chars (depth + 1) value (memberChars depth members rest))

/-- The further items of an array, and its end. -/
def itemChars (depth : Nat) : List Json → List Char → List Char
  | [], rest => newline depth (']' :: rest)
  | item :: items, rest =>
    ',' :: newline (depth + 1) (chars (depth + 1) item (itemChars depth items rest))

/-- The further members of an object, and its end. -/
def memberChars (depth : Nat) : List (String × Json) → List Char → List Char
  | [], rest => newline depth ('\x7d' :: rest)
  | (name, value) :: members, rest =>
    ',' :: memberName (depth + 1) name
      (chars (depth + 1) value (memberChars depth members rest))

end

/-- The text of a value. -/
def text (j : Json) : String := String.ofList (chars 0 j [])

end Json

end Arbor
