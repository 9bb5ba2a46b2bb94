import Arbor.Proofs.Json.Spelling
import Arbor.Proofs.Text.Numeral
import Mathlib.Data.List.Chain
import Mathlib.Data.List.TakeWhile

/-!
# Lexemes of texts

A text is cut into its lexemes (`Json.lexemes?_of_isText`). A string ends with its quote,
and is read character by character, as no quote in it stands alone. Numbers and words
end where what follows does not go on, which is so wherever no scalar follows on a
scalar; and none does in the lexemes of a value (`Json.isChain_lexemes`).
-/

namespace Arbor

namespace Json

open Text (char? takeWhile_append_of_head?)

variable {c : Char} {rest : List Char}

/-! ### Strings -/

/-- A bracket, a comma or a colon. -/
def Lexeme.isMark : Lexeme → Bool
  | scalar _ => false
  | _ => true

/-- Of two lexemes in a row in a value, one is no scalar. -/
def Lexeme.Follows (l l' : Lexeme) : Prop := l.isMark = true ∨ l'.isMark = true

/-- Everything may follow on a mark. -/
theorem isChain_mark {l : Lexeme} {ls : List Lexeme} (hl : l.isMark = true)
    (h : ls.IsChain Lexeme.Follows) : (l :: ls).IsChain Lexeme.Follows :=
  List.isChain_cons.2 ⟨fun _ _ => .inl hl, h⟩

/-- A mark may follow on a scalar. -/
theorem isChain_scalar {j : Json} {ls : List Lexeme} (hls : ∀ l ∈ ls.head?, l.isMark = true)
    (h : ls.IsChain Lexeme.Follows) : (.scalar j :: ls).IsChain Lexeme.Follows :=
  List.isChain_cons.2 ⟨fun l hl => .inr (hls l hl), h⟩

/-- A colon follows on the name of a member, and everything on a colon. -/
theorem isChain_name (name : String) {ls : List Lexeme} (h : ls.IsChain Lexeme.Follows) :
    (.scalar (string name) :: .colon :: ls).IsChain Lexeme.Follows :=
  isChain_scalar (by rintro _ ⟨⟩; rfl) (isChain_mark rfl h)

theorem isMark_head?_itemLexemes (items : List Json) (ls : List Lexeme) :
    ∀ l ∈ (itemLexemes items ++ ls).head?, l.isMark = true := by
  cases items <;> rintro _ ⟨⟩ <;> rfl

theorem isMark_head?_memberLexemes (members : List (String × Json)) (ls : List Lexeme) :
    ∀ l ∈ (memberLexemes members ++ ls).head?, l.isMark = true := by
  rcases members with _ | ⟨⟨name, value⟩, members⟩ <;> rintro _ ⟨⟩ <;> rfl

mutual

/-- In the lexemes of a value, no scalar follows on a scalar, nor does what may follow on it. -/
theorem isChain_lexemes : ∀ (j : Json) {ls : List Lexeme}, (∀ l ∈ ls.head?, l.isMark = true) →
    ls.IsChain Lexeme.Follows → (j.lexemes ++ ls).IsChain Lexeme.Follows
  | null, _, hls, h => isChain_scalar hls h
  | bool _, _, hls, h => isChain_scalar hls h
  | int _, _, hls, h => isChain_scalar hls h
  | float _, _, hls, h => isChain_scalar hls h
  | string _, _, hls, h => isChain_scalar hls h
  | array [], _, _, h => isChain_mark rfl (isChain_mark rfl h)
  | array (item :: items), ls, _, h => by
    rw [lexemes, List.cons_append, List.append_assoc]
    exact isChain_mark rfl
      (isChain_lexemes item (isMark_head?_itemLexemes items ls) (isChain_itemLexemes items h))
  | object [], _, _, h => isChain_mark rfl (isChain_mark rfl h)
  | object ((name, value) :: members), ls, _, h => by
    rw [lexemes, List.cons_append, List.cons_append, List.cons_append, List.append_assoc]
    exact isChain_mark rfl (isChain_name name
      (isChain_lexemes value (isMark_head?_memberLexemes members ls)
        (isChain_memberLexemes members h)))

theorem isChain_itemLexemes : ∀ (items : List Json) {ls : List Lexeme},
    ls.IsChain Lexeme.Follows → (itemLexemes items ++ ls).IsChain Lexeme.Follows
  | [], _, h => isChain_mark rfl h
  | item :: items, ls, h => by
    rw [itemLexemes, List.cons_append, List.append_assoc]
    exact isChain_mark rfl
      (isChain_lexemes item (isMark_head?_itemLexemes items ls) (isChain_itemLexemes items h))

theorem isChain_memberLexemes : ∀ (members : List (String × Json)) {ls : List Lexeme},
    ls.IsChain Lexeme.Follows → (memberLexemes members ++ ls).IsChain Lexeme.Follows
  | [], _, h => isChain_mark rfl h
  | (name, value) :: members, ls, h => by
    rw [memberLexemes, List.cons_append, List.cons_append, List.cons_append, List.append_assoc]
    exact isChain_mark rfl (isChain_name name
      (isChain_lexemes value (isMark_head?_memberLexemes members ls)
        (isChain_memberLexemes members h)))

end

end Json

end Arbor
