/-!
# Lines

A text is cut behind every line end, so that each line but the last ends in one, which
is nowhere else. Put together again, the lines are the text.
Input that is not all text still has the lines before the first one that is none.
-/

namespace Arbor

namespace Text

/-- The lines of a text, each with its line end. -/
def lines : List Char → List (List Char)
  | [] => []
  | c :: rest =>
    if c = '\n' then [c] :: lines rest
    else
      match lines rest with
      | [] => [[c]]
      | line :: more => (c :: line) :: more

/-- The lines of bytes, each with its line end; the lines `found` come first, the last one
    in front, and then the `line` begun, its last byte in front. -/
def byteLinesFrom (found : List ByteArray) (line : ByteArray) : List UInt8 → List ByteArray
  | [] => (if line.isEmpty then found else line :: found).reverse
  | b :: rest =>
    if b = 10 then byteLinesFrom (line.push b :: found) .empty rest
    else byteLinesFrom found (line.push b) rest

/-- The text that bytes start with, as far as it consists of whole lines, and whether that
    is all of them. -/
def readable (bytes : ByteArray) : String × Bool :=
  match String.fromUTF8? bytes with
  | some text => (text, true)
  | none =>
    let lines := (byteLinesFrom [] .empty bytes.toList).map String.fromUTF8?
    (String.join ((lines.takeWhile Option.isSome).map (·.getD "")), false)

end Text

end Arbor
