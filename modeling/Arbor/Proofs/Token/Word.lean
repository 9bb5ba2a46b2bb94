import Arbor.Proofs.Token.Scan
import Mathlib.Data.List.TakeWhile

/-!
# Words

A *word* is a token that a text can hold: a literal has a 64-bit value, and a name is none
of the keywords. A scan gives words only (`Token.isWord_of_scan`), and no more of them than
the text has bytes (`Token.length_le_of_scan`). Every word but the end of a statement is
spelled by its text (`Token.isSpelled_of_isWord`), so that it can be written down again.
-/

namespace Arbor

namespace Token

/-- A name: a letter or `_`, behind it letters, digits and `_`, and all of it no keyword. -/
def IsName (text : String) : Prop :=
  (∃ c rest, text.toList = c :: rest ∧ isNameStart c = true ∧ ∀ d ∈ rest, isNamePart d = true) ∧
    text ∉ ["true", "false", "nil"]

/-- A token that some text holds. -/
def IsWord : Token → Prop
  | number value => value ≤ Integer.largest
  | ident text => IsName text
  | _ => True

/-! ### Lexemes by their first character -/

variable {c : Char} {word rest : List Char} {t : Token}

/-- A letter comes in the code behind all digits. -/
theorem toNat_of_isAlpha (h : c.isAlpha = true) : '9'.toNat < c.toNat := by
  have hletter : (decide ('A'.val ≤ c.val ∧ c.val ≤ 'Z'.val) ||
      (decide ('a'.val ≤ c.val) && decide (c.val ≤ 'z'.val))) = true := h
  rw [Bool.or_eq_true, Bool.and_eq_true, decide_eq_true_eq, decide_eq_true_eq] at hletter
  rcases hletter with ⟨h, -⟩ | ⟨h, -⟩
  · exact Nat.lt_of_lt_of_le (by decide) (UInt32.le_iff_toNat_le.1 h)
  · exact Nat.lt_of_lt_of_le (by decide) (UInt32.le_iff_toNat_le.1 h)

theorem isDigit_eq_false_of_isNameStart (h : isNameStart c = true) : c.isDigit = false := by
  rw [isNameStart, Bool.or_eq_true, beq_iff_eq] at h
  rw [Bool.eq_false_iff, ne_eq, Char.isDigit_iff_toNat]
  rintro ⟨-, hle⟩
  rcases h with h | rfl
  · exact absurd (toNat_of_isAlpha h) (Nat.not_lt_of_le hle)
  · exact absurd hle (by decide)

theorem isNamePart_of_isDigit (h : c.isDigit = true) : isNamePart c = true := by
  have halphanum : c.isAlphanum = true := Bool.or_eq_true_iff.2 (.inr h)
  rw [isNamePart, halphanum, Bool.true_or]

theorem isNamePart_of_isNameStart (h : isNameStart c = true) : isNamePart c = true := by
  rw [isNameStart, Bool.or_eq_true] at h
  rw [isNamePart, Bool.or_eq_true]
  exact h.imp_left fun halpha => Bool.or_eq_true_iff.2 (.inl halpha)

theorem isBlank_eq_false_of_isNamePart (h : isNamePart c = true) : isBlank c = false := by
  rw [Bool.eq_false_iff]
  intro hb
  simp only [isBlank, Bool.or_eq_true, beq_iff_eq] at hb
  rcases hb with (rfl | rfl) | rfl <;> cases h

/-- A lexeme that starts as a literal or a name does is no operator. -/
theorem ofLexeme?_of_isNamePart (h : isNamePart c = true) (word : List Char) :
    ofLexeme? (c :: word) =
      if c.isDigit then ofDigits? (c :: word)
      else if isNameStart c then some (ofName (String.ofList (c :: word)))
      else none := by
  unfold ofLexeme?
  split
  case h_13 he =>
    cases he
    rfl
  all_goals next he => cases he <;> exact absurd h (by decide)

/-- A lexeme that starts as a name does is one, or a keyword. -/
theorem ofLexeme?_of_isNameStart (h : isNameStart c = true) (word : List Char) :
    ofLexeme? (c :: word) = some (ofName (String.ofList (c :: word))) := by
  rw [ofLexeme?_of_isNamePart (isNamePart_of_isNameStart h), isDigit_eq_false_of_isNameStart h,
    if_pos h]
  rfl

/-- A name denotes itself. -/
theorem ofLexeme?_of_isName {text : String} (h : IsName text) :
    ofLexeme? text.toList = some (ident text) := by
  obtain ⟨⟨c, word, htext, hc, -⟩, hkeyword⟩ := h
  simp only [List.mem_cons, List.not_mem_nil, or_false, not_or] at hkeyword
  obtain ⟨htrue, hfalse, hnil⟩ := hkeyword
  rw [htext, ofLexeme?_of_isNameStart hc, ← htext, String.ofList_toList, ofName, if_neg htrue,
    if_neg hfalse, if_neg hnil]

/-- The lexeme that starts with a digit goes on with digits. -/
theorem spelled_of_isDigit (h : c.isDigit = true) (rest : List Char) :
    spelled c rest = rest.takeWhile Char.isDigit := by
  rw [spelled, if_pos h]

/-- The lexeme that starts as a name does goes on with parts of a name. -/
theorem spelled_of_isNameStart (h : isNameStart c = true) (rest : List Char) :
    spelled c rest = rest.takeWhile isNamePart := by
  rw [spelled, isDigit_eq_false_of_isNameStart h, if_pos h]
  rfl

/-! ### What a scan gives -/

/-- What is spelled as a name is a name or a keyword, and a word either way. -/
theorem isWord_ofName {text : String} {c : Char} {rest : List Char} (ht : text.toList = c :: rest)
    (hc : isNameStart c = true) (hr : ∀ d ∈ rest, isNamePart d = true) : (ofName text).IsWord := by
  unfold ofName
  split
  · trivial
  · next htrue =>
    split
    · trivial
    · next hfalse =>
      split
      · trivial
      · next hnil => exact ⟨⟨c, rest, ht, hc, hr⟩, by simp [htrue, hfalse, hnil]⟩

/-- A lexeme denotes a word. -/
theorem isWord_of_ofLexeme? (h : ofLexeme? (c :: spelled c rest) = some t) : t.IsWord := by
  by_cases hc : isNamePart c = true
  · rw [ofLexeme?_of_isNamePart hc] at h
    split at h
    · unfold ofDigits? at h
      simp only at h
      split at h
      · next hle =>
        cases h
        exact hle
      · cases h
    · split at h
      · next hs =>
        cases h
        refine isWord_ofName String.toList_ofList hs fun d hd => ?_
        rw [spelled_of_isNameStart hs] at hd
        exact List.all_eq_true.1 List.all_takeWhile d hd
      · cases h
  · have hd : c.isDigit = false := Bool.eq_false_iff.2 (mt isNamePart_of_isDigit hc)
    have hs : isNameStart c = false := Bool.eq_false_iff.2 (mt isNamePart_of_isNameStart hc)
    unfold ofLexeme? at h
    split at h
    case h_13 he =>
      cases he
      simp [hd, hs] at h
    all_goals first | cases h; trivial | cases h

/-- A scan from anywhere adds words only, and no more of them than there are characters. -/
theorem forall_isWord_of_scanFrom {text : List Char} {start : Nat} {found tokens : List Token}
    (h : scanFrom text start found = .ok tokens) :
    ∃ more : List Token, tokens = found.reverse ++ more ∧ (∀ t ∈ more, t.IsWord) ∧
      more.length ≤ text.length := by
  fun_induction scanFrom text start found with
  | case1 start found =>
    cases h
    exact ⟨[], (List.append_nil _).symm, List.forall_mem_nil _, Nat.le_refl 0⟩
  | case2 start found c rest hb ih =>
    obtain ⟨more, hm, hw, hl⟩ := ih h
    exact ⟨more, hm, hw, Nat.le_succ_of_le hl⟩
  | case3 start found c rest hb lexeme t ht ih =>
    obtain ⟨more, hm, hw, hl⟩ := ih h
    refine ⟨t :: more, by rw [hm, List.reverse_cons, List.append_assoc]; rfl,
      List.forall_mem_cons.2 ⟨isWord_of_ofLexeme? ht, hw⟩, ?_⟩
    rw [List.length_drop] at hl
    rw [List.length_cons, List.length_cons]
    omega
  | case4 => cases h

/-- A text has no more characters than bytes. -/
theorem length_toList_le (text : String) : text.toList.length ≤ text.utf8ByteSize := by
  induction text using String.push_induction with
  | empty => exact Nat.le_refl 0
  | push text c ih =>
    have hc := c.utf8Size_pos
    rw [String.toList_push, String.utf8ByteSize_push, List.length_append, List.length_singleton]
    omega

section

variable {source : String} {tokens : List Token} (h : scan source = .ok tokens)
include h

/-- A scan gives words. -/
theorem isWord_of_scan : ∀ t ∈ tokens, t.IsWord := by
  obtain ⟨more, rfl, hw, -⟩ := forall_isWord_of_scanFrom h
  exact hw

/-- A scan gives no more tokens than the text has bytes. -/
theorem length_le_of_scan : tokens.length ≤ source.utf8ByteSize := by
  obtain ⟨more, rfl, -, hl⟩ := forall_isWord_of_scanFrom h
  exact Nat.le_trans hl (length_toList_le source)

end

/-! ### Words are spelled by their texts -/

theorem isSpelled_of_toList (htext : t.text.toList = c :: word) (hb : isBlank c = false)
    (hs : spelled c word = word) (ht : ofLexeme? (c :: word) = some t) : t.isSpelled = true := by
  rw [isSpelled, htext]
  simp [hb, hs, ht]

theorem isSpelled_number {value : Nat} (h : value ≤ Integer.largest) :
    (number value).isSpelled = true := by
  obtain ⟨c, word, hdigits⟩ := List.exists_cons_of_ne_nil (@Nat.toDigits_ne_nil value 10)
  have hall : ∀ d ∈ c :: word, d.isDigit = true := fun d hd =>
    Nat.isDigit_of_mem_toDigits (by decide) (by decide) (hdigits ▸ hd)
  obtain ⟨hc, hword⟩ := List.forall_mem_cons.1 hall
  have hpart := isNamePart_of_isDigit hc
  refine isSpelled_of_toList (Nat.toList_repr.trans hdigits) (isBlank_eq_false_of_isNamePart hpart)
    ?_ ?_
  · rw [spelled_of_isDigit hc]
    exact List.takeWhile_eq_self_iff.2 hword
  · rw [ofLexeme?_of_isNamePart hpart, if_pos hc, ofDigits?, ← hdigits, Nat.ofDigitChars_ten_toDigits]
    exact if_pos h

theorem isSpelled_ident {text : String} (h : IsName text) : (ident text).isSpelled = true := by
  have ht := ofLexeme?_of_isName h
  obtain ⟨⟨c, word, htext, hc, hword⟩, -⟩ := h
  rw [htext] at ht
  refine isSpelled_of_toList htext
    (isBlank_eq_false_of_isNamePart (isNamePart_of_isNameStart hc)) ?_ ht
  rw [spelled_of_isNameStart hc]
  exact List.takeWhile_eq_self_iff.2 hword

/-- The text of a word is its lexeme, unless it is the end of a statement. -/
theorem isSpelled_of_isWord (hw : t.IsWord) (ht : t ≠ .terminator) : t.isSpelled = true := by
  cases t with
  | number value => exact isSpelled_number hw
  | ident text => exact isSpelled_ident hw
  | terminator => exact absurd rfl ht
  | boolean value => cases value <;> decide +kernel
  | _ => decide +kernel

end Token

end Arbor
