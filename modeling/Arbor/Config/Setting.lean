import Arbor.Bindings
import Arbor.Text.Lower
import Arbor.Toml

/-!
# Settings

What a configuration is made of before its meaning is looked at. Settings come in
layers, and a later layer is put over the earlier ones table by table
(`Setting.put`): only the entries that it names change. The names of entries are
compared in small letters. Every setting remembers the file it comes from.
-/

namespace Arbor

/-- A setting without parts. -/
inductive Scalar
  | null
  | bool (value : Bool)
  | int (value : Int)
  | float (value : Double)
  | string (value : String)

/-- A setting, with the file it comes from. -/
inductive Setting
  | scalar (origin : Option String) (value : Scalar)
  | list (origin : Option String) (items : List Setting)
  | table (origin : Option String) (entries : List (String × Setting))

namespace Setting

/-- A setting that says nothing. -/
def null : Setting := scalar none .null

/-- A table without entries, from no file. -/
def empty : Setting := table none []

def origin : Setting → Option String
  | scalar origin _ | list origin _ | table origin _ => origin

/-- The entries of a table; anything else has none. -/
def entries : Setting → Bindings Setting
  | table _ entries => entries
  | _ => []

/-- The items of a list; anything else has none. -/
def items : Setting → List Setting
  | list _ items => items
  | _ => []

/-- The entry of a table under a name in small letters. -/
def entry? (s : Setting) (name : String) : Option Setting := s.entries.find name

/-- A table with an entry replaced. Anything else becomes a table with nothing but that
    entry. -/
def withEntry (s : Setting) (name : String) (value : Setting) : Setting :=
  let origin := match s with
    | table origin _ => origin
    | _ => none
  table origin (s.entries.place name value)

mutual

/-- Puts a value under a name. A table is put over what is there entry by entry, and any
    other value replaces it. -/
def put (name : String) (value : Setting) (target : Setting) : Setting :=
  match value with
  | table _ incoming =>
    let name := Text.lower name
    target.withEntry name (putAll incoming ((target.entry? name).getD empty))
  | value => target.withEntry (Text.lower name) value

/-- Puts one value after the other under their names. -/
def putAll (values : List (String × Setting)) (target : Setting) : Setting :=
  match values with
  | [] => target
  | (name, value) :: rest => putAll rest (put name value target)

end

mutual

/-- The settings that a document spells. Dates and times are their text. -/
def ofToml (origin : Option String) : Toml → Setting
  | .string s => scalar origin (.string s)
  | .int n => scalar origin (.int n.toInt)
  | .float x => scalar origin (.float x)
  | .bool b => scalar origin (.bool b)
  | .moment text => scalar origin (.string text)
  | .array items => list origin (ofItems origin items)
  | .table _ entries => table origin (ofEntries origin entries)
  | .rows rows => list origin (ofRows origin rows).reverse

def ofItems (origin : Option String) : List Toml → List Setting
  | [] => []
  | item :: rest => ofToml origin item :: ofItems origin rest

def ofEntries (origin : Option String) : List (String × Toml) → List (String × Setting)
  | [] => []
  | (name, value) :: rest => (name, ofToml origin value) :: ofEntries origin rest

def ofRows (origin : Option String) : List (List (String × Toml)) → List Setting
  | [] => []
  | row :: rest => table origin (ofEntries origin row) :: ofRows origin rest

end

end Setting

end Arbor
