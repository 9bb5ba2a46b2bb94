import Arbor.Json.Read

/-!
# What a text of JSON spells

A text is made of *words*, one for every lexeme, with blanks before, between and behind
them (`Json.IsText`), and it spells the value that the lexemes are those of
(`Json.Spells`). A character of a string may be written as itself or as an escape
(`Json.Stands`). Of the numbers, only whole ones of 64 bits are told here, with a sign or
without; of the objects, only those that have no two members of one name.

A reader of JSON reads what a text spells, but it may keep the members of an object in
an order of its own (`Json.Alike`), and it may refuse texts in which more than so many
arrays and objects are nested. This is all that `Json.IsReader` says of a reader.
-/

namespace Arbor

namespace Json

/-! ### Values -/

mutual

/-- How many arrays and objects of the value are nested. -/
def nesting : Json → Nat
  | array items => 1 + nestings items
  | object members => 1 + memberNestings members
  | _ => 0

/-- The deepest nesting of some items. -/
def nestings : List Json → Nat
  | [] => 0
  | item :: items => max item.nesting (nestings items)

/-- The deepest nesting of the values of some members. -/
def memberNestings : List (String × Json) → Nat
  | [] => 0
  | (_, value) :: members => max value.nesting (memberNestings members)

end

mutual

/-- No object of the value has two members of one name. -/
def IsDistinct : Json → Prop
  | array items => AreDistinct items
  | object members => (members.map (·.1)).Nodup ∧ HaveDistinct members
  | _ => True

def AreDistinct : List Json → Prop
  | [] => True
  | item :: items => item.IsDistinct ∧ AreDistinct items

def HaveDistinct : List (String × Json) → Prop
  | [] => True
  | (_, value) :: members => value.IsDistinct ∧ HaveDistinct members

end

mutual

/-- The second value is the first one, with the members of its objects in some order. -/
def Alike : Json → Json → Prop
  | array items, j => ∃ items', j = array items' ∧ AreAlike items items'
  | object members, j =>
    ∃ members' kept, j = object kept ∧ HaveAlike members members' ∧ members'.Perm kept
  | i, j => j = i

def AreAlike : List Json → List Json → Prop
  | [], items' => items' = []
  | item :: items, items' =>
    ∃ item' rest, items' = item' :: rest ∧ item.Alike item' ∧ AreAlike items rest

def HaveAlike : List (String × Json) → List (String × Json) → Prop
  | [], members' => members' = []
  | (name, value) :: members, members' =>
    ∃ value' rest, members' = (name, value') :: rest ∧ value.Alike value' ∧ HaveAlike members rest

end

mutual

/-- The lexemes of a value. -/
def lexemes : Json → List Lexeme
  | array [] => [.openArray, .closeArray]
  | array (item :: items) => .openArray :: (item.lexemes ++ itemLexemes items)
  | object [] => [.openObject, .closeObject]
  | object ((name, value) :: members) =>
    .openObject :: .scalar (string name) :: .colon :: (value.lexemes ++ memberLexemes members)
  | j => [.scalar j]

/-- The lexemes of the further items of an array, and of its end. -/
def itemLexemes : List Json → List Lexeme
  | [] => [.closeArray]
  | item :: items => .comma :: (item.lexemes ++ itemLexemes items)

/-- The lexemes of the further members of an object, and of its end. -/
def memberLexemes : List (String × Json) → List Lexeme
  | [] => [.closeObject]
  | (name, value) :: members =>
    .comma :: .scalar (string name) :: .colon :: (value.lexemes ++ memberLexemes members)

end

/-! ### Texts -/

/-- What may stand for a character in a string. A character that has no code of 16 bits
    is escaped as a pair of them. -/
inductive Stands : Char → List Char → Prop
  | plain {c : Char} : c ≠ '"' → c ≠ '\\' → 0x20 ≤ c.toNat → Stands c [c]
  | letter {c l : Char} : unescape? l = some c → Stands c ['\\', l]
  | unit {c h₁ h₂ h₃ h₄ : Char} {n : Nat} : unit? h₁ h₂ h₃ h₄ = some n → Text.char? n = some c →
      Stands c ['\\', 'u', h₁, h₂, h₃, h₄]
  | pair {c h₁ h₂ h₃ h₄ l₁ l₂ l₃ l₄ : Char} {high low : Nat} : unit? h₁ h₂ h₃ h₄ = some high →
      unit? l₁ l₂ l₃ l₄ = some low → paired? high low = some c →
      Stands c ['\\', 'u', h₁, h₂, h₃, h₄, '\\', 'u', l₁, l₂, l₃, l₄]

/-- What may stand for the characters of a string between its quotes. -/
inductive StandFor : List Char → List Char → Prop
  | nil : StandFor [] []
  | cons {c : Char} {s word text : List Char} : Stands c word → StandFor s text →
      StandFor (c :: s) (word ++ text)

/-- The word of a lexeme. -/
inductive Lexeme.IsWord : Lexeme → List Char → Prop
  | openArray : IsWord .openArray ['[']
  | closeArray : IsWord .closeArray [']']
  | openObject : IsWord .openObject ['\x7b']
  | closeObject : IsWord .closeObject ['\x7d']
  | colon : IsWord .colon [':']
  | comma : IsWord .comma [',']
  | null : IsWord (.scalar null) ['n', 'u', 'l', 'l']
  | true : IsWord (.scalar (bool true)) ['t', 'r', 'u', 'e']
  | false : IsWord (.scalar (bool false)) ['f', 'a', 'l', 's', 'e']
  /-- A whole number of 64 bits, in decimal digits. -/
  | int {n : Int} : -(Integer.largest + 1) ≤ n → n ≤ 2 * Integer.largest + 1 →
      IsWord (.scalar (int n)) (toString n).toList
  | string {s : String} {text : List Char} : StandFor s.toList text →
      IsWord (.scalar (string s)) ('"' :: (text ++ ['"']))

/-- A text of these lexemes, with any blanks before, between and behind their words. -/
inductive IsText : List Lexeme → List Char → Prop
  | nil : IsText [] []
  | blank {ls : List Lexeme} {c : Char} {text : List Char} : isBlank c = true → IsText ls text →
      IsText ls (c :: text)
  | word {l : Lexeme} {ls : List Lexeme} {word text : List Char} : l.IsWord word →
      IsText ls text → IsText (l :: ls) (word ++ text)

variable {limit : Option Nat}

theorem fits_iff {depth : Nat} : fits limit depth = true ↔ ∀ n ∈ limit, depth ≤ n := by
  cases limit <;> simp [fits]

theorem fits_max (a b : Nat) : fits limit (max a b) = (fits limit a && fits limit b) := by
  cases limit with
  | none => rfl
  | some n => simp only [fits, Option.all_some, Nat.max_le, Bool.decide_and]

/-- Where many are open, fewer may be. -/
theorem fits_of_le {a b : Nat} (hab : a ≤ b) (h : fits limit b = true) : fits limit a = true :=
  fits_iff.2 fun n hn => Nat.le_trans hab (fits_iff.1 h n hn)

/-! ### Alike values -/

mutual

theorem Alike.refl : ∀ j : Json, j.Alike j
  | null => rfl
  | bool _ => rfl
  | int _ => rfl
  | float _ => rfl
  | string _ => rfl
  | array items => ⟨items, rfl, AreAlike.refl items⟩
  | object members => ⟨members, members, rfl, HaveAlike.refl members, .refl members⟩

theorem AreAlike.refl : ∀ items : List Json, AreAlike items items
  | [] => rfl
  | item :: items => ⟨item, items, rfl, Alike.refl item, AreAlike.refl items⟩

theorem HaveAlike.refl : ∀ members : List (String × Json), HaveAlike members members
  | [] => rfl
  | (_, value) :: members => ⟨value, members, rfl, Alike.refl value, HaveAlike.refl members⟩

end

end Json

end Arbor
