import Arbor.Integer
import Arbor.Json
import Arbor.Text.CodePoint

/-!
# Reading JSON

A text is cut into *lexemes*: brackets, commas, colons and scalars. Values are then
put together from the lexemes by a list of the arrays and objects that are still
open, of which there may be a limit. `Json.read?` gives no value for a text that is not
JSON, and for one that is nested deeper than the limit.
-/

namespace Arbor

namespace Json

open Text (hexValue? char?)

/-- The smallest unit of a text. -/
inductive Lexeme
  | openArray
  | closeArray
  | openObject
  | closeObject
  | colon
  | comma
  /-- A value without parts. -/
  | scalar (value : Json)

/-! ### Numbers -/

/-- Whole numbers of 64 bits are kept as they are. -/
def ofWhole (negative : Bool) (digits : List Char) : Json :=
  let n := Nat.ofDigitChars 10 digits 0
  let rounded := float (.ofDecimal (.ofParts negative digits [] 0))
  if negative then
    if 0 < n ∧ n ≤ Integer.largest + 1 then int (-n) else rounded
  else
    if n ≤ 2 * Integer.largest + 1 then int n else rounded

/-- One digit at least, and no more than one if the first is a zero. -/
def isWhole : List Char → Bool
  | [] => false
  | ['0'] => true
  | '0' :: _ => false
  | _ => true

/-- The number that a sign, digits, a fraction and an exponent spell; the fraction
    comes with its point and the exponent with its letter. -/
def number? (text : List Char) : Option Json :=
  let (negative, text) := match text with
    | '-' :: text => (true, text)
    | _ => (false, text)
  let whole := text.takeWhile Char.isDigit
  let text := text.dropWhile Char.isDigit
  let (fraction, text) := match text with
    | '.' :: text => (some (text.takeWhile Char.isDigit), text.dropWhile Char.isDigit)
    | _ => (none, text)
  let (exponent, text) := match text with
    | 'e' :: text | 'E' :: text => (some text, [])
    | _ => (none, text)
  let spelled (exponent : List Char) : Bool :=
    match exponent with
    | '+' :: digits | '-' :: digits => !digits.isEmpty && digits.all Char.isDigit
    | digits => !digits.isEmpty && digits.all Char.isDigit
  if isWhole whole && text.isEmpty && fraction.all (!·.isEmpty) && exponent.all spelled then
    if fraction.isNone && exponent.isNone then some (ofWhole negative whole)
    else
      some (float (.ofDecimal (.ofParts negative whole (fraction.getD [])
        (Decimal.signed (exponent.getD [])))))
  else none

/-- A character that may stand in a number. -/
def isNumeral (c : Char) : Bool :=
  c.isDigit || c == '-' || c == '+' || c == '.' || c == 'e' || c == 'E'

/-! ### Strings -/

/-- The value of four hexadecimal digits. -/
def unit? (a b c d : Char) : Option Nat := do
  let a ← hexValue? a
  let b ← hexValue? b
  let c ← hexValue? c
  let d ← hexValue? d
  some (((a * 16 + b) * 16 + c) * 16 + d)

/-- The character that two units stand for together. -/
def paired? (high low : Nat) : Option Char :=
  if 0xD800 ≤ high ∧ high < 0xDC00 ∧ 0xDC00 ≤ low ∧ low < 0xE000 then
    char? (0x10000 + (high - 0xD800) * 0x400 + (low - 0xDC00))
  else none

/-- The character that a backslash and a letter stand for. -/
def unescape? (c : Char) : Option Char :=
  match c with
  | '"' => some '"'
  | '\\' => some '\\'
  | '/' => some '/'
  | 'b' => some '\x08'
  | 'f' => some '\x0c'
  | 'n' => some '\n'
  | 'r' => some '\r'
  | 't' => some '\t'
  | _ => none

/-- Reads a string after its opening quote, and gives what follows the closing one;
    the characters `found` come first, the last one in front. -/
def stringFrom (found : List Char) : List Char → Option (String × List Char)
  | [] => none
  | '"' :: rest => some (String.ofList found.reverse, rest)
  | '\\' :: 'u' :: a :: b :: c :: d :: '\\' :: 'u' :: e :: f :: g :: h :: rest =>
    match unit? a b c d with
    | none => none
    | some high =>
      match char? high with
      | some ch => stringFrom (ch :: found) ('\\' :: 'u' :: e :: f :: g :: h :: rest)
      | none =>
        match (unit? e f g h).bind (paired? high) with
        | some ch => stringFrom (ch :: found) rest
        | none => none
  | '\\' :: 'u' :: a :: b :: c :: d :: rest =>
    match (unit? a b c d).bind char? with
    | some ch => stringFrom (ch :: found) rest
    | none => none
  | '\\' :: c :: rest =>
    match unescape? c with
    | some ch => stringFrom (ch :: found) rest
    | none => none
  | c :: rest => if c = '\\' ∨ c.toNat < 0x20 then none else stringFrom (c :: found) rest

theorem length_of_stringFrom {found text rest : List Char} {s : String}
    (h : stringFrom found text = some (s, rest)) : rest.length < text.length := by
  fun_induction stringFrom found text <;> simp_all <;> omega

/-! ### Lexemes -/

/-- The lexeme that starts with `c`, and what follows it. -/
def lexeme? (c : Char) (rest : List Char) : Option (Lexeme × List Char) :=
  match c with
  | '[' => some (.openArray, rest)
  | ']' => some (.closeArray, rest)
  | '\x7b' => some (.openObject, rest)
  | '\x7d' => some (.closeObject, rest)
  | ':' => some (.colon, rest)
  | ',' => some (.comma, rest)
  | '"' => (stringFrom [] rest).map fun (s, rest) => (.scalar (string s), rest)
  | _ =>
    if isNumeral c then
      (number? (c :: rest.takeWhile isNumeral)).map fun n =>
        (.scalar n, rest.dropWhile isNumeral)
    else
      match String.ofList (c :: rest.takeWhile Char.isAlpha) with
      | "null" => some (.scalar null, rest.dropWhile Char.isAlpha)
      | "true" => some (.scalar (bool true), rest.dropWhile Char.isAlpha)
      | "false" => some (.scalar (bool false), rest.dropWhile Char.isAlpha)
      | _ => none

theorem length_dropWhile_le {α : Type} (p : α → Bool) (l : List α) :
    (l.dropWhile p).length ≤ l.length :=
  (List.dropWhile_sublist p).length_le

theorem length_of_lexeme? {c : Char} {text rest : List Char} {l : Lexeme}
    (h : lexeme? c text = some (l, rest)) : rest.length ≤ text.length := by
  have hd := @length_dropWhile_le Char
  unfold lexeme? at h
  split at h
  case h_7 =>
    obtain ⟨⟨s, r⟩, hs, he⟩ := Option.map_eq_some_iff.1 h
    cases he
    exact Nat.le_of_lt (length_of_stringFrom hs)
  case h_8 =>
    split at h
    · obtain ⟨n, hn, he⟩ := Option.map_eq_some_iff.1 h
      cases he
      exact hd _ _
    · split at h <;> cases h <;> exact hd _ _
  all_goals
    cases h
    exact Nat.le_refl _

/-- Skipped between lexemes. -/
def isBlank (c : Char) : Bool := c == ' ' || c == '\n' || c == '\t' || c == '\r'

/-- The lexemes of a text, after those already found (the last one first). -/
def lexemes? (found : List Lexeme) (text : List Char) : Option (List Lexeme) :=
  match text with
  | [] => some found.reverse
  | c :: rest =>
    if isBlank c then lexemes? found rest
    else
      match _h : lexeme? c rest with
      | some (l, rest) => lexemes? (l :: found) rest
      | none => none
termination_by text.length
decreasing_by
  · simp
  · have := length_of_lexeme? _h
    simp only [List.length_cons]
    omega

/-! ### Values -/

/-- An array or object that is still open. -/
inductive Open
  /-- An array, with its items so far, the last one first. -/
  | array (items : List Json)
  /-- An object, with its members so far, the last one first, and the name of the
      member to come. -/
  | object (members : List (String × Json)) (name : String)

/-- What may come next. -/
inductive Next
  | value
  /-- A value, or the end of an empty array. -/
  | firstItem
  /-- The name of a member; if there is none before it, the end of the object as well. -/
  | name (members : List (String × Json))
  /-- The colon behind a name. -/
  | colon (members : List (String × Json)) (name : String)
  /-- What follows a finished value. -/
  | done (value : Json)

/-- No more than `limit` arrays and objects are open where this many are. -/
def fits (limit : Option Nat) (depth : Nat) : Bool := limit.all (depth ≤ ·)

/-- What may come after the start of a value. -/
def begin? (limit : Option Nat) : Lexeme → List Open → Option (List Open × Next)
  | .openArray, opens =>
    if fits limit (opens.length + 1) then some (.array [] :: opens, .firstItem) else none
  | .openObject, opens => if fits limit (opens.length + 1) then some (opens, .name []) else none
  | .scalar value, opens => some (opens, .done value)
  | _, _ => none

/-- What may come after a lexeme. -/
def follow? (limit : Option Nat) : Next → Lexeme → List Open → Option (List Open × Next)
  | .firstItem, .closeArray, .array [] :: opens => some (opens, .done (.array []))
  | .firstItem, l, opens => begin? limit l opens
  | .value, l, opens => begin? limit l opens
  | .name [], .closeObject, opens => some (opens, .done (.object []))
  | .name members, .scalar (.string name), opens => some (opens, .colon members name)
  | .colon members name, .colon, opens => some (.object members name :: opens, .value)
  | .done value, .comma, .array items :: opens => some (.array (value :: items) :: opens, .value)
  | .done value, .closeArray, .array items :: opens =>
    some (opens, .done (.array (value :: items).reverse))
  | .done value, .comma, .object members name :: opens =>
    some (opens, .name ((name, value) :: members))
  | .done value, .closeObject, .object members name :: opens =>
    some (opens, .done (.object ((name, value) :: members).reverse))
  | _, _, _ => none

/-- The value of the lexemes to come. -/
def assemble? (limit : Option Nat) (next : Next) (opens : List Open) : List Lexeme → Option Json
  | [] =>
    match next, opens with
    | .done value, [] => some value
    | _, _ => none
  | l :: rest =>
    match follow? limit next l opens with
    | some (opens, next) => assemble? limit next opens rest
    | none => none

/-- The value of a text in which no more than `limit` arrays and objects are open at once. -/
def read? (text : String) (limit : Option Nat := none) : Option Json :=
  (lexemes? [] text.toList).bind (assemble? limit .value [])

end Json

end Arbor
