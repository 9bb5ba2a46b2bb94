import Arbor.Snapshot
import Arbor.Yaml.Scalar

/-!
# Trees in YAML

A node is a block of members, one on each line: `node_type`, `value`, `symbol` if
there is a name, and `children` if there are any. Each child starts behind a dash
that stands below the `c` of `children`.
-/

namespace Arbor

namespace Yaml

/-- The start of a line, in front of what follows it. -/
def indent (depth : Nat) (rest : List Char) : List Char := List.replicate depth ' ' ++ rest

/-- The line of a name, in front of what follows it. -/
def symbolLine (depth : Nat) : Option String → List Char → List Char
  | none, rest => rest
  | some name, rest => indent depth ("symbol: ".toList ++ (scalar depth name ++ rest))

mutual

/-- The members of a node that stand `depth` columns in, from the name of the first
    member on, in front of what follows them. -/
def chars (depth : Nat) : Snapshot → List Char → List Char
  | .mk kind value symbol children, rest =>
    "node_type: ".toList ++ (kind.name.toList ++ '\n' ::
      indent depth ("value: ".toList ++ ((Integer.text value).toList ++ '\n' ::
        symbolLine depth symbol
          (match children with
            | [] => rest
            | first :: others =>
              indent depth ("children:\n".toList ++ dashes depth (first :: others) rest)))))

/-- A row of children, each behind a dash. -/
def dashes (depth : Nat) : List Snapshot → List Char → List Char
  | [], rest => rest
  | s :: others, rest => indent depth ('-' :: ' ' :: chars (depth + 2) s (dashes depth others rest))

end

/-- The text of a tree. -/
def text (s : Snapshot) : String := String.ofList (chars 0 s [])

end Yaml

end Arbor
