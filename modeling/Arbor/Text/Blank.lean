/-!
# Blank text

Text that shows nothing but empty space: the characters of the Unicode property
`White_Space`, which has line ends and the spaces of other scripts in it, and not
the characters of no width.
-/

namespace Arbor

namespace Text

/-- A space or a line end. -/
def isBlank (c : Char) : Bool :=
  let n := c.toNat
  (9 ≤ n && n ≤ 13) || n == 0x20 || n == 0x85 || n == 0xA0 || n == 0x1680 ||
    (0x2000 ≤ n && n ≤ 0x200A) || n == 0x2028 || n == 0x2029 || n == 0x202F || n == 0x205F ||
    n == 0x3000

/-- There is nothing but blank characters in the text. -/
def isAllBlank (s : String) : Bool := s.toList.all isBlank

end Text

end Arbor
