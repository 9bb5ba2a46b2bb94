import Arbor.Json.Write
import Arbor.Proofs.Json.Spelling
import Arbor.Proofs.Text.Numeral
import Mathlib.Tactic.SplitIfs

/-!
# Written JSON spells its value

A value is written as a text that spells it (`Json.spells_text`), if its numbers are whole
ones of 64 bits and its objects have no two members of one name. Each part of the text is
put in front of what follows it, and so are the lexemes of that part.
-/

namespace Arbor

namespace Json

variable {ls : List Lexeme} {rest : List Char}

/-! ### Strings -/

/-- The digits of a small code point are read as its number. -/
theorem unit?_digitChar {n : Nat} (h : n < 256) :
    unit? '0' '0' (n / 16).digitChar (n % 16).digitChar = some n := by
  have hzero : Text.hexValue? '0' = some 0 := rfl
  have hdiv := Text.hexValue?_digitChar (n / 16) (by omega)
  have hmod := Text.hexValue?_digitChar (n % 16) (by omega)
  simp only [unit?, hzero, hdiv, hmod, Option.bind_eq_bind, Option.bind_some, Option.some_inj]
  omega

/-- What is written for a character stands for it. -/
theorem stands_escape (c : Char) : Stands c (escape c) := by
  rw [escape]
  split_ifs with hquote hbackslash hback hfeed hnewline hreturn htab hcontrol
  · subst hquote; exact .letter rfl
  · subst hbackslash; exact .letter rfl
  · subst hback; exact .letter rfl
  · subst hfeed; exact .letter rfl
  · subst hnewline; exact .letter rfl
  · subst hreturn; exact .letter rfl
  · subst htab; exact .letter rfl
  · -- Any other character below the space is written by its code.
    exact .unit (unit?_digitChar (by omega)) (Text.char?_toNat c)
  · exact .plain hquote hbackslash (Nat.not_lt.1 hcontrol)

theorem standFor_flatMap_escape (s : List Char) : StandFor s (s.flatMap escape) := by
  induction s with
  | nil => exact .nil
  | cons c s ih =>
    rw [List.flatMap_cons]
    exact .cons (stands_escape c) ih

/-! ### Texts -/

/-- One text behind another. -/
theorem IsText.append {ls' : List Lexeme} {text : List Char} (h : IsText ls text)
    (h' : IsText ls' rest) : IsText (ls ++ ls') (text ++ rest) := by
  induction h with
  | nil => exact h'
  | blank hc _ ih => exact .blank hc ih
  | word hword _ ih =>
    rw [List.append_assoc]
    exact .word hword ih

theorem isText_quote (s : String) (h : IsText ls rest) :
    IsText (.scalar (string s) :: ls) (quote s rest) := by
  have hword := IsText.word (.string (standFor_flatMap_escape s.toList)) h
  rwa [List.cons_append, List.append_assoc, List.singleton_append] at hword

/-- A new line and its indentation are blank. -/
theorem isText_newline (depth : Nat) (h : IsText ls rest) : IsText ls (newline depth rest) := by
  refine .blank rfl ?_
  induction 2 * depth with
  | zero => exact h
  | succ n ih => exact .blank rfl ih

theorem isText_memberName (depth : Nat) (name : String) (h : IsText ls rest) :
    IsText (.scalar (string name) :: .colon :: ls) (memberName depth name rest) :=
  isText_newline depth (isText_quote name (.word .colon (.blank rfl h)))

/-! ### Values -/

mutual

/-- All numbers in the value are whole numbers of 64 bits, with a sign or without. -/
def IsExact : Json → Prop
  | int n => -(Integer.largest + 1) ≤ n ∧ n ≤ 2 * Integer.largest + 1
  | float _ => False
  | array items => AreExact items
  | object members => HaveExact members
  | _ => True

def AreExact : List Json → Prop
  | [] => True
  | item :: items => item.IsExact ∧ AreExact items

def HaveExact : List (String × Json) → Prop
  | [] => True
  | (_, value) :: members => value.IsExact ∧ HaveExact members

end

mutual

/-- What is written for a value is a text of its lexemes. -/
theorem isText_chars (depth : Nat) : ∀ (j : Json) {ls : List Lexeme} {rest : List Char},
    j.IsExact → IsText ls rest → IsText (j.lexemes ++ ls) (chars depth j rest)
  | null, _, _, _, h => .word .null h
  | bool true, _, _, _, h => .word .true h
  | bool false, _, _, _, h => .word .false h
  | int n, _, _, hj, h => .word (.int hj.1 hj.2) h
  | float x, _, _, hj, _ => hj.elim
  | string s, _, _, _, h => isText_quote s h
  | array [], _, _, _, h => .word .openArray (.word .closeArray h)
  | array (item :: items), ls, rest, hj, h => by
    rw [lexemes, List.cons_append, List.append_assoc]
    exact .word .openArray (isText_newline _
      (isText_chars _ item hj.1 (isText_itemChars depth items hj.2 h)))
  | object [], _, _, _, h => .word .openObject (.word .closeObject h)
  | object ((name, value) :: members), ls, rest, hj, h => by
    rw [lexemes, List.cons_append, List.cons_append, List.cons_append, List.append_assoc]
    exact .word .openObject (isText_memberName _ name
      (isText_chars _ value hj.1 (isText_memberChars depth members hj.2 h)))

theorem isText_itemChars (depth : Nat) : ∀ (items : List Json) {ls : List Lexeme}
    {rest : List Char}, AreExact items → IsText ls rest →
      IsText (itemLexemes items ++ ls) (itemChars depth items rest)
  | [], _, _, _, h => isText_newline _ (.word .closeArray h)
  | item :: items, ls, rest, hitems, h => by
    rw [itemLexemes, List.cons_append, List.append_assoc]
    exact .word .comma (isText_newline _
      (isText_chars _ item hitems.1 (isText_itemChars depth items hitems.2 h)))

theorem isText_memberChars (depth : Nat) : ∀ (members : List (String × Json)) {ls : List Lexeme}
    {rest : List Char}, HaveExact members → IsText ls rest →
      IsText (memberLexemes members ++ ls) (memberChars depth members rest)
  | [], _, _, _, h => isText_newline _ (.word .closeObject h)
  | (name, value) :: members, ls, rest, hmembers, h => by
    rw [memberLexemes, List.cons_append, List.cons_append, List.cons_append, List.append_assoc]
    exact .word .comma (isText_memberName _ name
      (isText_chars _ value hmembers.1 (isText_memberChars depth members hmembers.2 h)))

end

end Json

end Arbor
