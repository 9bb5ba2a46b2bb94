import Arbor.Json.Write
import Arbor.Snapshot
import Arbor.Text.Quoted

/-!
# Snapshots and JSON

A snapshot is written as an object with the members `node_type`, `value`, `symbol`
if there is a name, and `children` if there are any. Reading accepts more: other
members, in any order; a missing or null `symbol`; missing children; the same four
in an array, of which the last two may be missing; and a kind as an object whose
only member has the name of the kind.

Of several mistakes in the members of an object, the one in the member first by name
is reported. Only if there is none, a missing member is.
-/

namespace Arbor

/-- What is wrong with a JSON value that is read as a snapshot. -/
inductive SnapshotError
  /-- A value of one type in the place of another. -/
  | invalidType (found : Json) (wanted : String)
  /-- A whole number that is too large. -/
  | outOfRange (value : Int)
  | unknownKind (name : String)
  /-- A kind as an object of other than one member. -/
  | notSingle
  /-- An array too short for a snapshot. -/
  | tooShort (length : Nat)
  /-- An array too long for a snapshot. -/
  | tooLong (length : Nat)
  | missing (member : String)

namespace SnapshotError

/-- How a value is called that stands in the wrong place. -/
def describe : Json → String
  | .null => "null"
  | .bool true => "boolean `true`"
  | .bool false => "boolean `false`"
  | .int n => s!"integer `{n}`"
  | .float x => s!"floating point `{x.text}`"
  | .string s => s!"string {Text.quote s}"
  | .array _ => "sequence"
  | .object _ => "map"

def message : SnapshotError → String
  | invalidType found wanted => s!"invalid type: {describe found}, expected {wanted}"
  | outOfRange value => s!"invalid value: integer `{value}`, expected i64"
  | unknownKind name =>
    let kinds := ", ".intercalate (Kind.all.map fun kind => s!"`{kind.name}`")
    s!"unknown variant `{name}`, expected one of {kinds}"
  | notSingle => "invalid value: map, expected map with a single key"
  | tooShort length => s!"invalid length {length}, expected struct TreeSnapshot with 4 elements"
  | tooLong length => s!"invalid length {length}, expected fewer elements in array"
  | missing member => s!"missing field `{member}`"

end SnapshotError

namespace Snapshot

/-! ### Writing -/

mutual

/-- The JSON value of a snapshot. -/
def toJson : Snapshot → Json
  | mk kind value symbol children =>
    .object (("node_type", .string kind.name) :: ("value", .int value.toInt) ::
      (match symbol with
        | some name => [("symbol", .string name)]
        | none => []) ++
      (match children with
        | [] => []
        | first :: rest => [("children", .array (first.toJson :: toJsons rest))]))

/-- The JSON values of a row of snapshots. -/
def toJsons : List Snapshot → List Json
  | [] => []
  | s :: rest => s.toJson :: toJsons rest

end

/-- The text of a snapshot in JSON, ended. -/
def jsonText (s : Snapshot) : String := s.toJson.text ++ "\n"

/-! ### Reading -/

/-- Reads a kind by its name. -/
def readKindName (name : String) : Except SnapshotError Kind :=
  match Kind.ofName? name with
  | some kind => .ok kind
  | none => .error (.unknownKind name)

/-- Reads a kind. -/
def readKind : Json → Except SnapshotError Kind
  | .string name => readKindName name
  | .object [] => .error .notSingle
  | .object ((name, value) :: members) =>
    -- A repeated name is still the only one, and its last value counts.
    if members.any (·.1 != name) then .error .notSingle
    else
      match readKindName name, (Json.get? name members).getD value with
      | .error e, _ => .error e
      | .ok kind, .null => .ok kind
      | .ok _, other => .error (.invalidType other "unit")
  | other => .error (.invalidType other "string or map")

/-- Reads the value of a node. -/
def readValue : Json → Except SnapshotError Int64
  | .int n =>
    match Integer.ofInt? n with
    | some value => .ok value
    | none => .error (.outOfRange n)
  | other => .error (.invalidType other "i64")

/-- Reads the name of a symbol, or that there is none. -/
def readSymbol : Json → Except SnapshotError (Option String)
  | .null => .ok none
  | .string name => .ok (some name)
  | other => .error (.invalidType other "a string")

/-- What was read for each member of an object; none for a member that is missing. -/
structure Members where
  kind : Option (Except SnapshotError Kind) := none
  value : Option (Except SnapshotError Int64) := none
  symbol : Option (Except SnapshotError (Option String)) := none
  children : Option (Except SnapshotError (List Snapshot)) := none

namespace Members

/-- Puts a snapshot together, or tells the first mistake. -/
def assemble (m : Members) : Except SnapshotError Snapshot := do
  let children ← m.children.getD (.ok [])
  let kind ← m.kind.elim (.ok none) (·.map some)
  let symbol ← m.symbol.getD (.ok none)
  let value ← m.value.elim (.ok none) (·.map some)
  match kind, value with
  | none, _ => .error (.missing "node_type")
  | some _, none => .error (.missing "value")
  | some kind, some value => .ok (.mk kind value symbol children)

end Members

mutual

/-- Reads a snapshot. -/
def ofJson : Json → Except SnapshotError Snapshot
  | .object members => (readMembers members).assemble
  | .array items => ofItems items
  | other => .error (.invalidType other "struct TreeSnapshot")

/-- Reads the members of a snapshot. Of repeated members the last one counts. -/
def readMembers : List (String × Json) → Members
  | [] => {}
  | (name, j) :: rest =>
    let m := readMembers rest
    if name = "node_type" then { m with kind := m.kind.or (some (readKind j)) }
    else if name = "value" then { m with value := m.value.or (some (readValue j)) }
    else if name = "symbol" then { m with symbol := m.symbol.or (some (readSymbol j)) }
    else if name = "children" then { m with children := m.children.or (some (readChildren j)) }
    else m

/-- Reads a row of children. -/
def readChildren : Json → Except SnapshotError (List Snapshot)
  | .array items => ofJsons items
  | other => .error (.invalidType other "a sequence")

/-- Reads snapshots up to the first mistake. -/
def ofJsons : List Json → Except SnapshotError (List Snapshot)
  | [] => .ok []
  | j :: rest =>
    match ofJson j with
    | .error e => .error e
    | .ok s => (ofJsons rest).map (s :: ·)

/-- Reads a snapshot without the names of its members. -/
def ofItems : List Json → Except SnapshotError Snapshot
  | [] => .error (.tooShort 0)
  | [kind] => (readKind kind).bind fun _ => .error (.tooShort 1)
  | [kind, value] => do .ok (mk (← readKind kind) (← readValue value) none [])
  | [kind, value, symbol] => do
    .ok (mk (← readKind kind) (← readValue value) (← readSymbol symbol) [])
  | kind :: value :: symbol :: children :: rest => do
    let kind ← readKind kind
    let value ← readValue value
    let symbol ← readSymbol symbol
    let children ← readChildren children
    if rest.isEmpty then .ok (mk kind value symbol children)
    else .error (.tooLong (rest.length + 4))

end

end Snapshot

end Arbor
