import Arbor.Config.Setting
import Arbor.Integer
import Arbor.Text.Reader

/-!
# Keys of settings

A key says where a setting is: a name, then for each table or list on the way a name
behind a dot or a place in brackets. Places count from zero, negative ones from the
end. Putting a value under a key makes the tables and lists that are missing on the
way, in place of anything else that stands there.
-/

namespace Arbor

namespace Setting

/-- A step into a table or a list. -/
inductive Step
  | name (name : String)
  | place (index : Int)

/-- A name and the steps that follow. -/
structure Key where
  name : String
  steps : List Step

namespace Key

open Reader

/-- A character that may stand in a name: a letter, a digit, `_`, `-` or a space. -/
def isNaming (c : Char) : Bool := c.isAlphanum || c == '_' || c == '-' || c == ' '

def word : Reader String := String.ofList <$> run isNaming

def step : Reader Step :=
  orElse
    (do literal ['.']; return .name (← required word))
    (do
      literal ['[']
      required do
        let negative := (← optional (literal ['-'])).isSome
        let n : Int := Nat.ofDigitChars 10 (← run Char.isDigit) 0
        let index := if negative then -n else n
        if (Integer.ofInt? index).isNone then refuse
        literal [']']
        return .place index)

/-- The key that a text spells. -/
def parse? (text : String) : Option Key :=
  let key : Reader Key := do return ⟨← word, ← many step⟩
  match key text.toList with
  | .ok (key, []) => some key
  | _ => none

end Key

/-- The place in a list of so many items, counted from zero. -/
def index (place : Int) (length : Nat) : Nat :=
  if 0 ≤ place then place.toNat else length - place.natAbs

/-- A list with an item replaced, behind settings that say nothing if it is too short.
    Anything else becomes a list of its own. -/
def withItem (s : Setting) (place : Int) (change : Setting → Setting) : Setting :=
  let origin := match s with
    | list origin _ => origin
    | _ => none
  let n := index place s.items.length
  let items := s.items ++ List.replicate (n + 1 - s.items.length) null
  list origin (items.modify n change)

/-- Puts a value at the end of the steps. -/
def assign (value : Setting) : List Step → Setting → Setting
  | [], _ => value
  | [.name name], s => put name value s
  | .name name :: steps, s =>
    let name := Text.lower name
    s.withEntry name (assign value steps ((s.entry? name).getD null))
  | .place i :: steps, s => s.withItem i (assign value steps)

/-- Puts a value under a key. -/
def assignKey (s : Setting) (key : Key) (value : Setting) : Setting :=
  assign value (.name key.name :: key.steps) s

end Setting

end Arbor
