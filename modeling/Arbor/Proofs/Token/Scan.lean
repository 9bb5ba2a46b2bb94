import Arbor.Token.Scan

/-!
# Tokens written as text

A *separator*, which is a blank or the end of a statement, ends every lexeme
(`Token.spelled_append_separator`). So tokens whose text is a lexeme of theirs are scanned from
their texts with a space behind each (`Token.scan_line`), whatever tokens stand next to each other.
-/

namespace Arbor

namespace Token

/-- The text of the token is one lexeme, and denotes the token. -/
def isSpelled (t : Token) : Bool :=
  match t.text.toList with
  | [] => false
  | c :: word => !isBlank c && spelled c word == word && ofLexeme? (c :: word) == some t

/-- The texts of the tokens, with a space behind each. -/
def line : List Token → String
  | [] => ""
  | t :: ts => t.text ++ " " ++ line ts

/-- Stands between lexemes, whatever these are. -/
def isSeparator (c : Char) : Bool := isBlank c || c == '\n' || c == ';'

/-- A separator goes on no lexeme. -/
theorem not_part_of_isSeparator {s : Char} (hs : isSeparator s = true) :
    s.isDigit = false ∧ isNamePart s = false ∧ (s == '=') = false := by
  simp only [isSeparator, isBlank, Bool.or_eq_true, beq_iff_eq] at hs
  rcases hs with ((((rfl | rfl) | rfl) | rfl) | rfl) <;> decide

/-- A run of characters ends at the first that is not of their kind. -/
theorem takeWhile_append_cons {p : Char → Bool} {s : Char} (hp : p s = false)
    (text rest : List Char) : (text ++ s :: rest).takeWhile p = text.takeWhile p := by
  rw [List.takeWhile_append, List.takeWhile_cons_of_neg (by simp [hp]), List.append_nil]
  split
  · next h => exact ((List.takeWhile_prefix p).eq_of_length h).symm
  · rfl

/-- What is spelled in front of a separator does not depend on what is behind it. -/
theorem spelled_append_separator {s : Char} (hs : isSeparator s = true) (c : Char)
    (text rest : List Char) : spelled c (text ++ s :: rest) = spelled c text := by
  obtain ⟨hdigit, hname, hequals⟩ := not_part_of_isSeparator hs
  unfold spelled
  rw [takeWhile_append_cons hdigit, takeWhile_append_cons hname]
  -- Behind `=` and `!` stands one `=` or nothing.
  cases text with
  | nil => simp [hequals]
  | cons d text => rfl

/-- A scan goes on behind the first lexeme. -/
theorem scanFrom_lexeme {c : Char} {word rest : List Char} {t : Token} (hb : isBlank c = false)
    (hs : spelled c (word ++ rest) = word) (ht : ofLexeme? (c :: word) = some t) (start : Nat)
    (found : List Token) :
    scanFrom (c :: (word ++ rest)) start found =
      scanFrom rest (start + (String.ofList (c :: word)).utf8ByteSize) (t :: found) := by
  rw [scanFrom, hb, hs]
  simp only [ht, List.drop_left]
  rfl

/-- A scan ends with a lexeme that denotes no token. -/
theorem scanFrom_error {c : Char} {word rest : List Char} (hb : isBlank c = false)
    (hs : spelled c (word ++ rest) = word) (ht : ofLexeme? (c :: word) = none) (start : Nat)
    (found : List Token) :
    scanFrom (c :: (word ++ rest)) start found = .error ⟨start, String.ofList (c :: word)⟩ := by
  rw [scanFrom, hb, hs]
  simp only [ht]
  rfl

/-- A scan goes on behind a blank. -/
theorem scanFrom_blank {c : Char} (hb : isBlank c = true) (rest : List Char) (start : Nat)
    (found : List Token) :
    scanFrom (c :: rest) start found = scanFrom rest (start + c.utf8Size) found := by
  rw [scanFrom, if_pos hb]

/-- What it means that the text of a token is a lexeme of it. -/
theorem exists_of_isSpelled {t : Token} (ht : t.isSpelled = true) :
    ∃ c word, t.text.toList = c :: word ∧ isBlank c = false ∧ spelled c word = word ∧
      ofLexeme? (c :: word) = some t := by
  rw [isSpelled] at ht
  split at ht
  · cases ht
  · next c word htext =>
    simp only [Bool.and_eq_true, Bool.not_eq_true', beq_iff_eq] at ht
    exact ⟨c, word, htext, ht.1.1, ht.1.2, ht.2⟩

/-- A scan takes the token from its text and a space, and goes on behind them. -/
theorem scanFrom_text {t : Token} (ht : t.isSpelled) (rest : List Char) (start : Nat)
    (found : List Token) :
    ∃ next, scanFrom (t.text.toList ++ ' ' :: rest) start found = scanFrom rest next (t :: found) := by
  obtain ⟨c, word, htext, hb, hs, ht⟩ := exists_of_isSpelled ht
  have hspelled : spelled c (word ++ ' ' :: rest) = word :=
    (spelled_append_separator rfl c word rest).trans hs
  have hlexeme := scanFrom_lexeme hb hspelled ht start found
  rw [htext]
  exact ⟨_, hlexeme.trans (scanFrom_blank rfl rest _ (t :: found))⟩

/-- Tokens are scanned from a line of their texts. -/
theorem scan_line {tokens : List Token} (h : ∀ t ∈ tokens, t.isSpelled) :
    scan (line tokens) = .ok tokens := by
  have hfrom : ∀ start found,
      scanFrom (line tokens).toList start found = .ok (found.reverse ++ tokens) := by
    induction tokens with
    | nil =>
      intro start found
      rw [List.append_nil]
      exact scanFrom.eq_1 start found
    | cons t tokens ih =>
      intro start found
      obtain ⟨ht, hts⟩ := List.forall_mem_cons.1 h
      have hchars : (line (t :: tokens)).toList = t.text.toList ++ ' ' :: (line tokens).toList := by
        rw [line, String.toList_append, String.toList_append, List.append_assoc]
        rfl
      obtain ⟨next, htext⟩ := scanFrom_text ht (line tokens).toList start found
      rw [hchars, htext, ih hts, List.reverse_cons, List.append_assoc]
      rfl
  exact hfrom 0 []

end Token

end Arbor
