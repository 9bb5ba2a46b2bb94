import Arbor.Text.Visible

/-!
# Quoted text

A text is quoted between double quotes, such that the quoted form shows which
characters it holds: quotes and backslashes are escaped, and so is every
character that is not visible, by a letter where there is a usual one and
otherwise by its code point in hexadecimal between braces. Single quotes stand
for themselves.
-/

namespace Arbor

namespace Text

/-- The escape of a character by its code point: lower-case digits, no padding. -/
def escapeCode (c : Char) : List Char :=
  '\\' :: 'u' :: '\x7b' :: (Nat.toDigits 16 c.toNat ++ ['\x7d'])

/-- What stands for a character inside the quotes. -/
def escape (c : Char) : List Char :=
  if c = '"' then ['\\', '"']
  else if c = '\\' then ['\\', '\\']
  else if c = '\n' then ['\\', 'n']
  else if c = '\r' then ['\\', 'r']
  else if c = '\t' then ['\\', 't']
  else if c = '\x00' then ['\\', '0']
  else if isVisible c then [c]
  else escapeCode c

/-- What stands for a text inside the quotes. -/
def escaped (text : List Char) : List Char := text.flatMap escape

/-- The text between double quotes, escaped. -/
def quote (text : String) : String :=
  String.ofList ('"' :: (escaped text.toList ++ ['"']))

end Text

end Arbor
