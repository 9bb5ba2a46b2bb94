import Arbor.Proofs.Token.Separator

/-!
# Tokens shown and scanned again

Tokens are written with single spaces between them, each as it is shown, and the end of a statement
as a semicolon, since what is shown for it is a name (`Token.spaced`). A word alone is scanned from
what is written for it (`Token.scan_written`), and a space keeps it apart from the next one, so
that `=` and `=` stay two. Hence the words are just the tokens that a scan can find, and every list
of words is found again where it is written (`Token.scan_spaced_iff`).
-/

namespace Arbor

namespace Token

/-- What is written for a token. -/
def written : Token → String
  | terminator => ";"
  | t => t.text

/-- Tokens with single spaces between them. -/
def spaced (tokens : List Token) : String := " ".intercalate (tokens.map written)

variable {t : Token} {tokens : List Token}

/-- A word is scanned from what is written for it. -/
theorem scan_written (h : t.IsWord) : scan t.written = .ok [t] := by
  by_cases ht : t = terminator
  · subst ht
    decide +kernel
  · obtain ⟨c, word, htext, hb, hs, hlexeme⟩ := exists_of_isSpelled (isSpelled_of_isWord h ht)
    have hwritten : t.written = t.text := by
      cases t <;> first | rfl | exact absurd rfl ht
    have hscan := scanFrom_lexeme hb ((congrArg (spelled c) word.append_nil).trans hs) hlexeme 0 []
    rw [List.append_nil, scanFrom.eq_1] at hscan
    rw [hwritten, scan, htext, hscan]
    rfl

/-- Words are scanned from where they are written. -/
theorem scan_spaced (h : ∀ t ∈ tokens, t.IsWord) : scan (spaced tokens) = .ok tokens := by
  induction tokens with
  | nil => decide +kernel
  | cons t tokens ih =>
    obtain ⟨ht, htokens⟩ := List.forall_mem_cons.1 h
    rcases tokens with _ | ⟨u, tokens⟩
    · exact (congrArg scan String.intercalate_singleton).trans (scan_written ht)
    · have hspaced : spaced (t :: u :: tokens) =
          t.written ++ String.singleton ' ' ++ spaced (u :: tokens) :=
        String.intercalate_cons_cons
      rw [hspaced, scan_append_separator_eq_ok_iff rfl]
      exact ⟨[t], u :: tokens, scan_written ht, ih htokens, rfl⟩

/-- Showing tokens and scanning them again gives the same tokens, for all that a scan can find.

    These are the lists of words: of signs, keywords, ends of statements, literals of 64 bits, and
    names that are no keywords. A list is found by scanning some text exactly if all its tokens are
    words, and then also by scanning the text in which they are written with single spaces. -/
theorem scan_spaced_iff (tokens : List Token) :
    ((∃ source, scan source = .ok tokens) ↔ ∀ t ∈ tokens, t.IsWord) ∧
      (scan (spaced tokens) = .ok tokens ↔ ∀ t ∈ tokens, t.IsWord) :=
  ⟨⟨fun ⟨_, h⟩ => isWord_of_scan h, fun h => ⟨_, scan_spaced h⟩⟩, isWord_of_scan, scan_spaced⟩

example : spaced [assign, assign, equals, number 7, ident "nil2", terminator] = "= = == 7 nil2 ;" := by
  decide +kernel

end Token

end Arbor
