import Arbor.Directory
import Arbor.Format
import Arbor.Text.Quoted
import Arbor.Toml.Read

/-!
# Errors in configurations

Why settings make no configuration.
-/

namespace Arbor

namespace Config

/-- Why there is no configuration. -/
inductive Error
  /-- The key of an override is none. -/
  | badKey
  /-- A file is no document. -/
  | badDocument (position : Toml.Position)
  | noFile (name : String)
  | unreadable (e : FileError)
  /-- A setting is not what is wanted under its key. -/
  | badSetting (found wanted key : String) (origin : Option String)
  /-- A section is neither a table nor a list. -/
  | badSection (found title : String)
  /-- A section is a list with too few items. -/
  | shortSection (length : Nat) (title : String) (wanted : Nat)
  | noField (name : String)
  /-- The output format is neither a text nor a table with a single entry. -/
  | badFormat
  | noFormat (name : String)
  deriving DecidableEq

namespace Error

def message : Error → String
  | badKey => "invalid key"
  | badDocument p => s!"TOML parse error at line {p.line}, column {p.column}"
  | noFile name => s!"configuration file \"{name}\" not found"
  | unreadable e => e.message
  | badSetting found wanted key origin =>
    let place := match origin with
      | some file => s!" in {file}"
      | none => ""
    s!"invalid type: {found}, expected {wanted} for key `{key}`{place}"
  | badSection found title => s!"invalid type: {found}, expected struct {title}"
  | shortSection n title wanted =>
    s!"invalid length {n}, expected struct {title} with {wanted} elements"
  | noField name => s!"missing field `{name}`"
  | badFormat =>
    "value of enum OutputFormatName should be represented by either string or table " ++
      "with exactly one key"
  | noFormat name => s!"enum OutputFormatName does not have variant constructor {name}"

end Error

end Config

end Arbor
