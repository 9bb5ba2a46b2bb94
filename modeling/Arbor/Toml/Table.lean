import Arbor.Bindings
import Arbor.Toml

/-!
# Tables of TOML documents

The tables of a document grow as it is read. A header opens a table, which must be
new or known only from headers of tables within it; dotted keys make tables that only
dotted keys may add to; and no key is bound twice. Where a rule is broken there is no
table.
-/

namespace Arbor

namespace Toml

/-- The entries of a table with those at the end of a path changed, where `change` is
    given how the table there came about. Tables that are missing on the way are made in
    the style `made`. Of rows the last one is entered. -/
def within? (made : Style) (change : Style → Bindings Toml → Option (Bindings Toml)) :
    List String → Style → Bindings Toml → Option (Bindings Toml)
  | [], style, entries => change style entries
  | key :: path, _, entries => do
    let entered ← match entries.find key with
      | none => table made <$> within? made change path made []
      | some (.table style inner) =>
        if style = .closed ∨ (made = .dotted ∧ style = .declared) then none
        else table style <$> within? made change path style inner
      | some (.rows (row :: earlier)) =>
        (fun row => rows (row :: earlier)) <$> within? made change path .declared row
      | some _ => none
    some (entries.place key entered)

/-- Binds a new key at the end of a path of dotted keys. -/
def bind? (parents : List String) (key : String) (value : Toml) :
    Style → Bindings Toml → Option (Bindings Toml) :=
  within? .dotted
    (fun style entries =>
      -- Dotted keys add only to tables that dotted keys have made.
      if (parents ≠ [] ∧ style ≠ .dotted) ∨ (entries.find key).isSome then none
      else some (entries.place key value))
    parents

/-- Opens the table of a header. -/
def open? (parents : List String) (key : String) : Bindings Toml → Option (Bindings Toml) :=
  within? .implied
    (fun _ entries =>
      match entries.find key with
      | none => some (entries.place key (table .declared []))
      | some (.table .implied inner) => some (entries.place key (table .declared inner))
      | some _ => none)
    parents .declared

/-- Opens a new row. -/
def openRow? (parents : List String) (key : String) : Bindings Toml → Option (Bindings Toml) :=
  within? .implied
    (fun _ entries =>
      match entries.find key with
      | none => some (entries.place key (rows [[]]))
      | some (.rows earlier) => some (entries.place key (rows ([] :: earlier)))
      | some _ => none)
    parents .declared

/-- The table in braces that has these entries, each a path of keys and a value. -/
def inline? (pairs : List ((List String × String) × Toml)) : Option Toml :=
  let add (entries : Bindings Toml) (pair : (List String × String) × Toml) :=
    let ((parents, key), value) := pair
    bind? parents key value .closed entries
  table .closed <$> pairs.foldlM add []

end Toml

end Arbor
