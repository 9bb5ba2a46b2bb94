import Arbor.Toml.Moment
import Arbor.Toml.Number
import Arbor.Toml.Table

/-!
# Reading TOML documents

A document consists of lines: headers, which open a table or a row, and bindings of
keys in the table opened last. `Toml.read` gives the table of the whole document, or
the position of the first mistake. What cannot be read is a mistake where it stands,
and what breaks a rule of tables is a mistake of the whole line.
-/

namespace Arbor

namespace Toml

open Reader

/-! ### Values -/

/-- A line end, or a sign of its own for what the line end has to be. -/
def mandatoryNewline (text : List Char) : Except Obstacle (List Char) :=
  match text with
  | '\n' :: rest => .ok rest
  | '\r' :: '\n' :: rest => .ok rest
  | '\r' :: rest => .error (.refusal rest)
  | _ => .error (.refusal text)

/-- Skips spaces, line ends and comments between the items of an array. -/
def gapFrom (text : List Char) : Except Obstacle (Unit × List Char) :=
  let start := text.dropWhile isSpace
  let next := match start with
    | '\n' :: _ | '\r' :: _ => some (mandatoryNewline start)
    | '#' :: rest => some (mandatoryNewline (rest.dropWhile isPlain))
    | _ => none
  match next with
  | none => .ok ((), start)
  | some (.error o) => .error o
  | some (.ok rest) => if rest.length < text.length then gapFrom rest else .ok ((), rest)
termination_by text.length

def gap : Reader Unit := gapFrom

/-- An array of such values. There may be a comma behind the last one. -/
def arrayOf (value : Reader Toml) : Reader Toml := do
  literal ['[']
  required do
    let item : Reader Toml := do
      gap
      let v ← value
      gap
      return v
    let items ← separated item (literal [','])
    if !items.isEmpty then
      let _ ← optional (literal [','])
    gap
    literal [']']
    return array items

/-- A table in braces, on one line. -/
def inlineOf (value : Reader Toml) : Reader Toml := do
  literal ['\x7b']
  required do
    let start ← here
    let pair : Reader ((List String × String) × Toml) := do
      let keys ← path
      required do
        literal ['=']
        space
        let v ← value
        space
        return (keys, v)
    let pairs ← separated pair (literal [','])
    space
    match inline? pairs with
    | none => mistakeAt start
    | some t => do
      literal ['\x7d']
      return t

/-- A value without parts. -/
def scalar : Reader Toml := do
  match (← here).head? with
  | some '"' | some '\'' => return string (← quoted)
  | some 't' => do
    literal ['t', 'r', 'u', 'e']
    return bool true
  | some 'f' => do
    literal ['f', 'a', 'l', 's', 'e']
    return bool false
  | _ => orElse dateOrTime number

/-- A value with fewer brackets around its parts than `depth`. -/
def valueWithin (depth : Nat) : Reader Toml := do
  let text ← here
  match text.head?, depth with
  | some '[', 0 | some '\x7b', 0 => mistakeAt text
  | some '[', depth + 1 => arrayOf (valueWithin depth)
  | some '\x7b', depth + 1 => inlineOf (valueWithin depth)
  | _, _ => scalar

def value : Reader Toml := valueWithin (depthLimit - 1)

/-! ### Lines -/

/-- A line that says something. -/
inductive Statement
  /-- Opens a table. -/
  | header (parents : List String) (key : String)
  /-- Opens a row. -/
  | row (parents : List String) (key : String)
  /-- Binds a key. -/
  | binding (parents : List String) (key : String) (value : Toml)

def tableHeader : Reader Statement := do
  literal ['[']
  required do
    let (parents, key) ← path
    literal [']']
    lineRest
    return .header parents key

def rowHeader : Reader Statement := do
  literal ['[', '[']
  required do
    let (parents, key) ← path
    literal [']', ']']
    lineRest
    return .row parents key

def binding : Reader Statement := do
  let (parents, key) ← path
  literal ['=']
  space
  let v ← value
  lineRest
  return .binding parents key v

/-- A header or a binding. A bracket at the end of the document is no header. -/
def statement : Reader Statement := do
  if (← here) = ['['] then refuse
  orElse rowHeader (orElse tableHeader binding)

/-! ### Documents -/

/-- What has been read of a document. -/
structure Draft where
  /-- The path to the table opened last. -/
  opened : List String := []
  /-- The table of the whole document. -/
  root : Bindings Toml := []

/-- The draft with one more line. -/
def Draft.add? (d : Draft) : Statement → Option Draft
  | .header parents key =>
    (fun root => ⟨parents ++ [key], root⟩) <$> open? parents key d.root
  | .row parents key =>
    (fun root => ⟨parents ++ [key], root⟩) <$> openRow? parents key d.root
  | .binding parents key value =>
    (fun root => { d with root }) <$>
      within? .implied (bind? parents key value) d.opened .declared d.root

/-- One line, which may have nothing but a comment on it. -/
def line (d : Draft) : Reader Draft := do
  space
  let text ← here
  match text.head? with
  | none | some '\n' | some '\r' => do
    lineEnd
    return d
  | some '#' => do
    comment
    lineEnd
    return d
  | _ => do
    match d.add? (← statement) with
    | some d => return d
    | none => mistakeAt text

/-- The draft with all lines of the text. -/
def document (d : Draft) (text : List Char) : Except Obstacle Draft :=
  match line d text with
  | .error o => .error o
  | .ok (d, rest) => if rest.length < text.length then document d rest else .ok d
termination_by text.length

/-- A place in a text, both numbers counted from one. -/
structure Position where
  line : Nat
  column : Nat
  deriving DecidableEq

/-- The position of the character before which the text is `before` and from which on it
    is `rest`. Columns count characters, but bytes if the character there is none of
    ASCII. The end of a text is a column behind its last character, even if that ends a
    line. -/
def Position.between (before rest : List Char) : Position :=
  let (before, beyond) := match rest with
    | [] => (before.dropLast, if before.isEmpty then 0 else 1)
    | _ => (before, 0)
  let start := (before.reverse.takeWhile (· != '\n')).reverse
  let width := match rest with
    | c :: _ => if c.toNat < 128 then start.length else (String.ofList start).utf8ByteSize
    | [] => start.length
  ⟨before.count '\n' + 1, width + beyond + 1⟩

/-- The table of a document, which may start with a byte order mark. -/
def read (document : String) : Except Position (Bindings Toml) :=
  let text := document.toList
  let body := if text.head? = some '\uFEFF' then text.drop 1 else text
  match Toml.document {} body with
  | .ok d => .ok d.root
  | .error o =>
    let before := text.take (text.length - o.rest.length)
    .error (.between before o.rest)

end Toml

end Arbor
