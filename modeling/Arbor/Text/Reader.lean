/-!
# Readers

A reader takes a value off the front of a text. If it cannot, it either *refuses*
the text, so that another reader may try it from the same place, or finds a
*mistake*, after which no other reading is looked for. In both cases it tells how
much of the text was left where it stopped.
-/

namespace Arbor

/-- Why a reader has no value, with the text from the place of trouble on. -/
inductive Obstacle
  /-- What was looked for does not start here, or does not go on here. -/
  | refusal (rest : List Char)
  /-- The text is wrong here. -/
  | mistake (rest : List Char)

/-- The text from the place of trouble on. -/
def Obstacle.rest : Obstacle → List Char
  | refusal rest => rest
  | mistake rest => rest

/-- Takes a value off the front of a text. -/
abbrev Reader (α : Type) := StateT (List Char) (Except Obstacle) α

namespace Reader

variable {α β : Type}

/-- The text to come. -/
def here : Reader (List Char) := get

def refuse : Reader α := fun text => .error (.refusal text)

/-- Finds a mistake at an earlier place. -/
def mistakeAt (place : List Char) : Reader α := throw (.mistake place)

/-- One character that has the property. -/
def char (p : Char → Bool) : Reader Char := fun text =>
  match text with
  | c :: rest => if p c then .ok (c, rest) else .error (.refusal text)
  | [] => .error (.refusal [])

/-- All characters up to the first that lacks the property. -/
def span (p : Char → Bool) : Reader (List Char) := fun text =>
  .ok (text.takeWhile p, text.dropWhile p)

/-- All characters up to the first that lacks the property, and at least one. -/
def run (p : Char → Bool) : Reader (List Char) := do
  let c ← char p
  return c :: (← span p)

/-- Exactly these characters. -/
def literal (word : List Char) : Reader Unit := fun text =>
  if word.isPrefixOf text then .ok ((), text.drop word.length) else .error (.refusal text)

/-- The second reader, where the first one refuses the text. -/
def orElse (first second : Reader α) : Reader α := fun text =>
  match first text with
  | .error (.refusal _) => second text
  | outcome => outcome

/-- What the reader takes, or nothing where it refuses the text. -/
def optional (r : Reader α) : Reader (Option α) := orElse (some <$> r) (pure none)

/-- A refusal is a mistake here. -/
def required (r : Reader α) : Reader α := fun text =>
  match r text with
  | .error (.refusal rest) => .error (.mistake rest)
  | outcome => outcome

/-- Tries the reader and takes nothing. -/
def ahead (r : Reader α) : Reader Unit := fun text =>
  match r text with
  | .ok _ => .ok ((), text)
  | .error (.refusal _) => .error (.refusal text)
  | .error (.mistake _) => .error (.mistake text)

/-- What the reader takes again and again until it refuses the text or takes nothing
    off it, after what is `found` already (the last one first). -/
def manyFrom (r : Reader α) (found : List α) (text : List Char) :
    Except Obstacle (List α × List Char) :=
  match r text with
  | .ok (a, rest) =>
    if rest.length < text.length then manyFrom r (a :: found) rest
    else .ok ((a :: found).reverse, rest)
  | .error (.refusal _) => .ok (found.reverse, text)
  | .error o => .error o
termination_by text.length

def many (r : Reader α) : Reader (List α) := manyFrom r []

/-- What the reader takes, and again after each separator. There may be nothing at all,
    and a separator with nothing behind it is left in the text. -/
def separated (r : Reader α) (separator : Reader β) : Reader (List α) := do
  match ← optional r with
  | none => return []
  | some a => return a :: (← many (do let _ ← separator; r))

end Reader

end Arbor
