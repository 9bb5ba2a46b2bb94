import Arbor.Double

/-!
# TOML documents

The values of the TOML format. A table can be written in several places of a
document, and how it came about decides where it may be added to: the `Style` of a
table keeps this. An array that is written one table at a time consists of *rows*.
-/

namespace Arbor

namespace Toml

/-- How a table came about. -/
inductive Style
  /-- By a header of its own. -/
  | declared
  /-- By the header of a table within it. -/
  | implied
  /-- By a dotted key. -/
  | dotted
  /-- In braces; it is complete. -/
  | closed
  deriving DecidableEq

end Toml

/-- A value of a document. -/
inductive Toml
  | string (value : String)
  | int (value : Int64)
  | float (value : Double)
  | bool (value : Bool)
  /-- A date, a time, or both, as its text. -/
  | moment (text : String)
  | array (items : List Toml)
  /-- A table, with its entries as bindings. -/
  | table (style : Toml.Style) (entries : List (String × Toml))
  /-- An array that is written one table at a time; the last one comes first. -/
  | rows (rows : List (List (String × Toml)))

end Arbor
