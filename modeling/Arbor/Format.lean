/-!
# Output formats

The ways in which a tree can be written, and their names.
-/

namespace Arbor

/-- A way to write a tree. -/
inductive Format
  /-- A drawing, a line for every node. -/
  | treeviz
  /-- All on one line, in braces. -/
  | tag
  | json
  | yaml
  deriving DecidableEq

namespace Format

def all : List Format := [treeviz, tag, json, yaml]

def name : Format → String
  | treeviz => "treeviz"
  | tag => "tag"
  | json => "json"
  | yaml => "yaml"

/-- The format of a given name. -/
def ofName? (name : String) : Option Format := all.find? (·.name == name)

/-- The names of all formats, in a sentence. -/
def names : String := ", ".intercalate (all.map name)

/-- What is said of a name that is no format's. -/
def unknown (name : String) : String :=
  s!"unknown output format '{name}' (expected one of: {names})"

end Format

end Arbor
