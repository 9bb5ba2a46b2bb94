import Arbor.Format
import Arbor.Format.Tag
import Arbor.Format.Treeviz
import Arbor.Format.Yaml
import Arbor.Snapshot.Json

/-!
# Writing trees

The text of a tree in any of the formats. Only drawings can leave out what leaves hold.
-/

namespace Arbor

namespace Snapshot

/-- The text of a snapshot in a format. -/
def render (format : Format) (showValues : Bool) (s : Snapshot) : String :=
  match format with
  | .treeviz => Treeviz.text showValues s
  | .tag => Tag.text s
  | .json => s.jsonText
  | .yaml => Yaml.text s

end Snapshot

namespace ParseTree

/-- The text of a parse tree in a format. -/
def render (format : Format) (showValues : Bool) (tree : ParseTree) : String :=
  (Snapshot.ofTree tree).render format showValues

end ParseTree

end Arbor
