import Arbor.Snapshot

/-!
# Drawings of trees

A drawing has a line for every node, in the order of `Snapshot.preorder`. The line
of a node below the root starts with rails, two columns for every level: for each
of its ancestors below the root a bar if siblings of that ancestor follow, and then
a corner if the node is the last child of its parent, or a branching otherwise.
-/

namespace Arbor

namespace Treeviz

/-- The sign of a kind of node. -/
def icon : Kind → Char
  | .number => '#'
  | .boolean => '?'
  | .symbol => '◦'
  | .nil => '∅'
  | .assign => '≔'
  | .add => '+'
  | .subtract => '−'
  | .multiply => '×'
  | .divide => '÷'
  | .compare => '='
  | .inverseCompare => '≠'

/-- What a line says about a node. -/
def caption (showValues : Bool) (s : Snapshot) : List Char :=
  icon s.kind :: ' ' :: (s.label showValues).toList

/-- Where a line meets its node, which is the `last` child of its parent or not. -/
def joint (last : Bool) : List Char := if last then ['└', '─'] else ['├', '─']

/-- What passes below a joint. -/
def rail (last : Bool) : List Char := if last then [' ', ' '] else ['│', ' ']

mutual

/-- The lines of a node below the root, after the rails of its ancestors. -/
def branch (showValues : Bool) (rails : List Char) (last : Bool) : Snapshot → List (List Char)
  | .mk kind value symbol children =>
    (rails ++ joint last ++ ' ' :: caption showValues (.mk kind value symbol children)) ::
      branches showValues (rails ++ rail last) children

/-- The lines of a row of siblings, the last of which is the last child. -/
def branches (showValues : Bool) (rails : List Char) : List Snapshot → List (List Char)
  | [] => []
  | s :: rest => branch showValues rails rest.isEmpty s ++ branches showValues rails rest

end

/-- The lines of a drawing. -/
def lines (showValues : Bool) (s : Snapshot) : List (List Char) :=
  caption showValues s :: branches showValues [] s.children

/-- The drawing, every line of it ended. -/
def text (showValues : Bool) (s : Snapshot) : String :=
  String.ofList ((lines showValues s).flatMap (· ++ ['\n']))

end Treeviz

end Arbor
