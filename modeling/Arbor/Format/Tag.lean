import Arbor.Snapshot
import Arbor.Text.Quoted

/-!
# Trees on one line

A node is written between braces, with its kind and its value, its name if it has
one, and its children if there are any.
-/

namespace Arbor

namespace Tag

/-! Each of the following puts a text in front of what follows it. -/

/-- The name of a node that has one. -/
def name : Option String → List Char → List Char
  | none, rest => rest
  | some name, rest => ", symbol: ".toList ++ ((Text.quote name).toList ++ rest)

/-- The kind and the value of a node. -/
def head (kind : Kind) (value : Int64) (rest : List Char) : List Char :=
  "\x7btype: ".toList ++ (kind.name.toList ++ (", value: ".toList
    ++ ((Integer.text value).toList ++ rest)))

mutual

/-- A node between braces. -/
def chars : Snapshot → List Char → List Char
  | .mk kind value symbol [], rest => head kind value (name symbol ('\x7d' :: rest))
  | .mk kind value symbol (first :: others), rest =>
    head kind value (name symbol (", children: [".toList
      ++ chars first (more others (']' :: '\x7d' :: rest))))

/-- The nodes after the first in a row of children. -/
def more : List Snapshot → List Char → List Char
  | [], rest => rest
  | s :: others, rest => ',' :: ' ' :: chars s (more others rest)

end

/-- The line of a tree, ended. -/
def text (s : Snapshot) : String := String.ofList (chars s ['\n'])

end Tag

end Arbor
