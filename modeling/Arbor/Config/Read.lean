import Arbor.Config
import Arbor.Config.Error
import Arbor.Config.Setting

/-!
# Reading configurations

Settings are read generously. A number may be written as a truth value, as a number
with a fraction, which is rounded, or as text, and likewise a truth value. The
settings of a section are a table, or a list in the order of the section's fields.
Whatever else a table has in it is passed over.
-/

namespace Arbor

namespace Setting

/-- What is said of a setting that is not what is wanted. -/
def kindText : Setting → String
  | scalar _ .null => "unit value"
  | scalar _ (.bool b) => s!"boolean `{b}`"
  | scalar _ (.int n) => s!"integer `{n}`"
  | scalar _ (.float x) => s!"floating point `{x.positional}`"
  | scalar _ (.string s) => s!"string {Text.quote s}"
  | list _ _ => "sequence"
  | table _ _ => "map"

/-- The largest number that a setting can have. -/
def largest : Nat := 2 * Integer.largest + 1

/-- The number that digits spell, which `+` may stand in front of. -/
def number? (s : String) : Option Nat :=
  let digits := match s.toList with
    | '+' :: digits => digits
    | digits => digits
  let n := Nat.ofDigitChars 10 digits 0
  if !digits.isEmpty && digits.all Char.isDigit && n ≤ largest then some n else none

/-- The truth value that a word spells. -/
def truth? (s : String) : Option Bool :=
  if s ∈ ["true", "on", "yes"] then some true
  else if s ∈ ["false", "off", "no"] then some false
  else none

/-- The number that a setting gives for a key. -/
def number (key : String) (s : Setting) : Except Config.Error Nat :=
  match s with
  | scalar _ (.bool b) => .ok b.toNat
  | scalar _ (.float x) => .ok (x.clamp largest)
  | scalar origin (.int n) =>
    if 0 ≤ n then .ok n.toNat
    else
      .error (.badSetting s!"64-bit integer `{n}`" "an unsigned 64 bit or less integer" key origin)
  | scalar origin (.string text) =>
    match truth? (Text.lower text), number? text with
    | some b, _ => .ok b.toNat
    | none, some n => .ok n
    | none, none => .error (.badSetting s.kindText "an integer" key origin)
  | s => .error (.badSetting s.kindText "an integer" key s.origin)

/-- The truth value that a setting gives for a key. -/
def truth (key : String) (s : Setting) : Except Config.Error Bool :=
  match s with
  | scalar _ (.bool b) => .ok b
  | scalar _ (.int n) => .ok (n != 0)
  | scalar _ (.float x) => .ok !x.isZero
  | scalar origin (.string text) =>
    let word := Text.lower text
    match truth? word with
    | some b => .ok b
    | none =>
      if word = "1" then .ok true
      else if word = "0" then .ok false
      else .error (.badSetting s!"string {Text.quote word}" "a boolean" key origin)
  | s => .error (.badSetting s.kindText "a boolean" key s.origin)

/-- The output format that a setting names, as text or as the only entry of a table. -/
def format (s : Setting) : Except Config.Error Format :=
  let named (name : String) : Except Config.Error Format :=
    match Format.ofName? (Text.lower name) with
    | some format => .ok format
    | none => .error (.noFormat name)
  match s with
  | scalar _ (.string name) => named name
  | table _ [(name, _)] => named name
  | _ => .error .badFormat

end Setting

namespace Config

/-- A part of a configuration: what it is called, how it is spoken of, and its fields. -/
structure Section where
  name : String
  title : String
  fields : List String

def sessionSection : Section where
  name := "session"
  title := "SessionConfig"
  fields := ["max_stack_depth", "max_symbols", "max_nesting", "max_depth"]

def outputSection : Section where
  name := "output"
  title := "OutputConfig"
  fields := ["format", "show_values"]

/-- The configuration with the field of this name as the setting gives it. -/
def withField (field key : String) (s : Setting) (c : Config) : Except Error Config :=
  match field with
  | "max_stack_depth" => return { c with maxStackDepth := ← s.number key }
  | "max_symbols" => return { c with maxSymbols := ← s.number key }
  | "max_nesting" => return { c with maxNesting := ← s.number key }
  | "max_depth" => return { c with maxDepth := ← s.number key }
  | "format" => return { c with format := ← s.format }
  | "show_values" => return { c with showValues := ← s.truth key }
  | _ => return c

/-- The configuration with all fields of a section as the setting gives them. -/
def withSection (part : Section) (s : Setting) (c : Config) : Except Error Config :=
  match s with
  | .table _ entries => do
    let c ← entries.foldlM (fun c (name, s) =>
      if name ∈ part.fields then withField name s!"{part.name}.{name}" s c else pure c) c
    match part.fields.find? fun name => (s.entry? name).isNone with
    | some name => throw (.noField name)
    | none => return c
  | .list _ items => do
    let numbered := part.fields.zip items |>.zipIdx
    let c ← numbered.foldlM (fun c ((name, s), i) =>
      withField name s!"{part.name}[{i}]" s c) c
    if items.length < part.fields.length then
      throw (.shortSection items.length part.title part.fields.length)
    return c
  | s => .error (.badSection s.kindText part.title)

/-- The configuration that a table of sections gives. -/
def ofSetting (s : Setting) : Except Error Config :=
  [outputSection, sessionSection].foldlM (fun c part =>
    match s.entry? part.name with
    | some s => withSection part s c
    | none => .error (.noField part.name)) {}

/-- The settings of a configuration, from no file. -/
def toSetting (c : Config) : Setting :=
  let table (entries : List (String × Setting)) := Setting.table none (Bindings.ofList entries)
  let number (n : Nat) := Setting.scalar none (.int n)
  table [
    ("session", table [
      ("max_stack_depth", number c.maxStackDepth),
      ("max_symbols", number c.maxSymbols),
      ("max_nesting", number c.maxNesting),
      ("max_depth", number c.maxDepth)]),
    ("output", table [
      ("format", .scalar none (.string c.format.name)),
      ("show_values", .scalar none (.bool c.showValues))])]

end Config

end Arbor
