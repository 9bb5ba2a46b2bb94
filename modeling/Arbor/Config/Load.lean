import Arbor.Config.Key
import Arbor.Config.Read

/-!
# Loading configurations

A configuration is the default one with layers over it: files, in their order, and
then single overrides, which win over all files wherever they stand among them.
-/

namespace Arbor

namespace Config

/-- Something put over the settings before it. -/
inductive Layer
  /-- The document in a file; if it is not required, a missing one changes nothing. -/
  | file (name : String) (isRequired : Bool)
  /-- A single value under a key. -/
  | override (key : String) (value : Scalar)

/-- The file of a name, or of that name and `.toml`, as its path and bytes. -/
def locate? (d : Directory) (name : String) : Option (String × ByteArray) :=
  let path := Directory.shorten name
  match d.bytes name with
  | .ok bytes => some (path, bytes)
  | .error _ =>
    match d.bytes (path ++ ".toml") with
    | .ok bytes => if path.isEmpty then none else some (path ++ ".toml", bytes)
    | .error _ => none

/-- The settings with those of a document over them. The keys at the top of a document
    may be written like keys of overrides. -/
def withDocument (origin : String) (document : Bindings Toml) (s : Setting) : Setting :=
  (Setting.ofEntries (some origin) document).foldl (fun s (name, value) =>
    s.assignKey ((Setting.Key.parse? name).getD ⟨name, []⟩) value) s

/-- The settings with those of a file over them. -/
def withFile (d : Directory) (name : String) (isRequired : Bool) (s : Setting) :
    Except Error Setting :=
  match locate? d name with
  | none => if isRequired then .error (.noFile name) else .ok s
  | some (path, bytes) =>
    match Directory.decode bytes with
    | .error e => if isRequired then .error (.unreadable e) else .ok s
    | .ok text =>
      match Toml.read text with
      | .error position => .error (.badDocument position)
      | .ok document => .ok (withDocument path document s)

/-- The overrides among layers, with their keys taken apart. -/
def overrides : List Layer → Except Error (List (Setting.Key × Scalar))
  | [] => return []
  | .file _ _ :: rest => overrides rest
  | .override key value :: rest => do
    let some key := Setting.Key.parse? key | throw .badKey
    return (key, value) :: (← overrides rest)

/-- The settings with the files among the layers over them. -/
def withFiles (d : Directory) (layers : List Layer) (s : Setting) : Except Error Setting :=
  layers.foldlM (fun s layer =>
    match layer with
    | .file name isRequired => withFile d name isRequired s
    | .override _ _ => pure s) s

/-- The configuration of all layers. A bad key is found before any file is looked at. -/
def load (d : Directory) (layers : List Layer) : Except Error Config := do
  let singles ← overrides layers
  let s ← withFiles d layers ({} : Config).toSetting
  ofSetting (singles.foldl (fun s (key, value) => s.assignKey key (.scalar none value)) s)

end Config

end Arbor
