import Arbor.Proofs.Text.Numeral
import Arbor.Text.Quoted
import Mathlib.Tactic.SplitIfs

/-!
# Quoted text read back

What stands between quotes is read character by character: an escape is a backslash with a letter or
with a code point between braces, and anything else stands for itself (`Text.unquoteFrom`). Each
character is read back from what stands for it, whatever follows (`Text.unquoteFrom_escape`), and so
is the text, up to the quote that closes it (`Text.unquote?_quote`).
-/

namespace Arbor

namespace Text

/-! ### Reading -/

/-- The character for which a letter stands behind a backslash. -/
def unescape? (c : Char) : Option Char :=
  match c with
  | '"' => some '"'
  | '\\' => some '\\'
  | 'n' => some '\n'
  | 'r' => some '\r'
  | 't' => some '\t'
  | '0' => some '\x00'
  | _ => none

/-- Reads a text up to the quote that closes it, and gives what follows. The characters `found`
    stand before, the last one first. Between the braces of an escape, `code` is the number of the
    digits so far. -/
def unquoteFrom (found : List Char) : (code : Option Nat) → List Char → Option (String × List Char)
  | none, '"' :: rest => some (String.ofList found.reverse, rest)
  | none, '\\' :: 'u' :: '\x7b' :: rest => unquoteFrom found (some 0) rest
  | none, '\\' :: c :: rest =>
    match unescape? c with
    | some d => unquoteFrom (d :: found) none rest
    | none => none
  | none, c :: rest => unquoteFrom (c :: found) none rest
  | some code, '\x7d' :: rest =>
    match char? code with
    | some c => unquoteFrom (c :: found) none rest
    | none => none
  | some code, c :: rest =>
    match hexValue? c with
    | some d => unquoteFrom found (some (16 * code + d)) rest
    | none => none
  | _, [] => none

/-- Reads a quoted text, and gives what follows it. -/
def unquote? : List Char → Option (String × List Char)
  | '"' :: rest => unquoteFrom [] none rest
  | _ => none

theorem length_of_unquoteFrom {found text rest : List Char} {code : Option Nat} {name : String}
    (h : unquoteFrom found code text = some (name, rest)) : rest.length < text.length := by
  fun_induction unquoteFrom found code text <;> simp_all <;> omega

theorem length_of_unquote? {text rest : List Char} {name : String}
    (h : unquote? text = some (name, rest)) : rest.length < text.length := by
  unfold unquote? at h
  split at h
  · exact Nat.lt_succ_of_lt (length_of_unquoteFrom h)
  · cases h

/-! ### Reading back -/

variable (found rest : List Char)

theorem digitChar_ne_brace : ∀ d < 16, d.digitChar ≠ '\x7d' := by decide

theorem unquoteFrom_digitChar (code : Nat) {d : Nat} (hd : d < 16) :
    unquoteFrom found (some code) (d.digitChar :: rest) =
      unquoteFrom found (some (16 * code + d)) rest := by
  rw [unquoteFrom, hexValue?_digitChar d hd]
  exact digitChar_ne_brace d hd

/-- The digits of a code point are read as its number. -/
theorem unquoteFrom_toDigits (n : Nat) (rest : List Char) :
    unquoteFrom found (some 0) (Nat.toDigits 16 n ++ rest) = unquoteFrom found (some n) rest := by
  induction n using Nat.strongRecOn generalizing rest with
  | ind n ih =>
    rcases Nat.lt_or_ge n 16 with hlt | hge
    · rw [Nat.toDigits_of_lt_base hlt, List.singleton_append, unquoteFrom_digitChar _ _ _ hlt,
        Nat.mul_zero, Nat.zero_add]
    · -- All digits but the last are those of the quotient.
      have hmod : n % 16 < 16 := Nat.mod_lt n (by decide)
      rw [Nat.toDigits_of_base_le (by decide) hge, List.append_assoc,
        ih (n / 16) (Nat.div_lt_self (by omega) (by decide)), List.singleton_append,
        unquoteFrom_digitChar _ _ _ hmod, Nat.div_add_mod]

theorem unquoteFrom_escapeCode (c : Char) :
    unquoteFrom found none (escapeCode c ++ rest) = unquoteFrom (c :: found) none rest := by
  have hcode : escapeCode c ++ rest =
      '\\' :: 'u' :: '\x7b' :: (Nat.toDigits 16 c.toNat ++ '\x7d' :: rest) := by
    rw [escapeCode, List.cons_append, List.cons_append, List.cons_append, List.append_assoc]
    rfl
  rw [hcode, unquoteFrom, unquoteFrom_toDigits, unquoteFrom, char?_toNat]

/-- A character is read back from what stands for it. -/
theorem unquoteFrom_escape (c : Char) :
    unquoteFrom found none (escape c ++ rest) = unquoteFrom (c :: found) none rest := by
  unfold escape
  split_ifs with hquote hbackslash hnewline hreturn htab hnull hvisible
  · subst hquote; rfl
  · subst hbackslash; rfl
  · subst hnewline; rfl
  · subst hreturn; rfl
  · subst htab; rfl
  · subst hnull; rfl
  · rw [List.singleton_append, unquoteFrom]
    · exact hquote
    · exact fun _ h _ => hbackslash h
    · exact fun _ _ h _ => hbackslash h
  · exact unquoteFrom_escapeCode found rest c

theorem unquoteFrom_escaped (text : List Char) :
    unquoteFrom found none (escaped text ++ '"' :: rest) =
      some (String.ofList (found.reverse ++ text), rest) := by
  induction text generalizing found with
  | nil => rw [List.append_nil]; rfl
  | cons c text ih =>
    rw [escaped, List.flatMap_cons, List.append_assoc, unquoteFrom_escape, ← escaped, ih,
      List.reverse_cons, List.append_assoc]
    rfl

/-- A text is read back from between its quotes. -/
theorem unquote?_quote (text : String) : unquote? ((quote text).toList ++ rest) = some (text, rest) := by
  have hquote : (quote text).toList ++ rest = '"' :: (escaped text.toList ++ '"' :: rest) := by
    rw [quote, String.toList_ofList, List.cons_append, List.append_assoc]
    rfl
  rw [hquote, unquote?, unquoteFrom_escaped, List.reverse_nil, List.nil_append, String.ofList_toList]

end Text

end Arbor
