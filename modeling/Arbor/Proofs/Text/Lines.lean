import Arbor.Text.Lines

/-!
# Taking lines out of a text

The lines of a text end in line ends, all but perhaps the last (`AreLines`, `areLines_lines`). Such
lines put together are cut into the same lines again (`lines_flatten`). As some of them, in their
order, are such lines as well, a line can be taken out of a text, and the other lines stay as they
are (`lines_dropLine`).
-/

namespace Arbor

namespace Text

variable {line body : List Char} {ls : List (List Char)}

/-- A line has a character, and none after its line end. -/
def IsLine (line : List Char) : Prop := line ≠ [] ∧ '\n' ∉ line.dropLast

/-- The lines of some text. Where a line follows, there is a line end before it. -/
structure AreLines (ls : List (List Char)) : Prop where
  isLine : ∀ line ∈ ls, IsLine line
  ended : ls.Pairwise fun line _ => '\n' ∈ line

theorem IsLine.exists_body (h : IsLine line) (hn : '\n' ∈ line) :
    ∃ body, '\n' ∉ body ∧ line = body ++ ['\n'] := by
  have hsplit := List.dropLast_concat_getLast h.1
  rw [← hsplit, List.mem_append, List.mem_singleton] at hn
  refine ⟨line.dropLast, h.2, ?_⟩
  rcases hn with hn | hn
  · exact absurd hn h.2
  · rw [hn, hsplit]

theorem isLine_singleton (c : Char) : IsLine [c] := ⟨List.cons_ne_nil _ _, List.not_mem_nil⟩

/-- What comes from cutting a text are lines. -/
theorem areLines_lines (text : List Char) : AreLines (lines text) := by
  fun_induction lines text with
  | case1 => exact ⟨List.forall_mem_nil _, .nil⟩
  | case2 rest ih =>
    refine ⟨List.forall_mem_cons.2 ⟨isLine_singleton _, ih.isLine⟩, ?_⟩
    exact List.pairwise_cons.2 ⟨fun _ _ => List.mem_singleton_self _, ih.ended⟩
  | case3 c rest hc hl ih =>
    exact ⟨List.forall_mem_singleton.2 (isLine_singleton c), List.pairwise_singleton _ _⟩
  | case4 c rest hc line more hl ih =>
    rw [hl] at ih
    obtain ⟨⟨hne, hbody⟩, hmore⟩ := List.forall_mem_cons.1 ih.isLine
    obtain ⟨hend, hends⟩ := List.pairwise_cons.1 ih.ended
    have hline : IsLine (c :: line) := by
      refine ⟨List.cons_ne_nil _ _, ?_⟩
      rw [List.dropLast_cons_of_ne_nil hne, List.mem_cons, not_or]
      exact ⟨Ne.symm hc, hbody⟩
    exact ⟨List.forall_mem_cons.2 ⟨hline, hmore⟩,
      List.pairwise_cons.2 ⟨fun l h => List.mem_cons_of_mem _ (hend l h), hends⟩⟩

/-- The first line end ends the first line. -/
theorem lines_append (h : '\n' ∉ body) (rest : List Char) :
    lines (body ++ '\n' :: rest) = (body ++ ['\n']) :: lines rest := by
  induction body with
  | nil => rw [List.nil_append, lines, if_pos rfl, List.nil_append]
  | cons c body ih =>
    rw [List.mem_cons, not_or] at h
    rw [List.cons_append, lines, if_neg (Ne.symm h.1), ih h.2, List.cons_append]

/-- A text without a line end is one line. -/
theorem lines_of_notMem (hne : line ≠ []) (h : '\n' ∉ line) : lines line = [line] := by
  induction line with
  | nil => exact absurd rfl hne
  | cons c line ih =>
    rw [List.mem_cons, not_or] at h
    rw [lines, if_neg (Ne.symm h.1)]
    cases line with
    | nil => rfl
    | cons d line => rw [ih nofun h.2]

/-- Lines put together are cut into the same lines. -/
theorem lines_flatten (h : AreLines ls) : lines ls.flatten = ls := by
  induction ls with
  | nil => rfl
  | cons line rest ih =>
    obtain ⟨hline, hlines⟩ := List.forall_mem_cons.1 h.isLine
    obtain ⟨hend, hends⟩ := List.pairwise_cons.1 h.ended
    by_cases hn : '\n' ∈ line
    · obtain ⟨body, hbody, rfl⟩ := hline.exists_body hn
      rw [List.flatten_cons, List.append_assoc, List.singleton_append, lines_append hbody,
        ih ⟨hlines, hends⟩]
    · -- Without a line end, the line is the last.
      have hrest : rest = [] := List.eq_nil_iff_forall_not_mem.2 fun l hl => hn (hend l hl)
      rw [hrest, List.flatten_singleton, lines_of_notMem hline.1 hn]

/-- Lines that are each ended are cut apart again. -/
theorem lines_flatMap (h : ∀ line ∈ ls, '\n' ∉ line) :
    lines (ls.flatMap (· ++ ['\n'])) = ls.map (· ++ ['\n']) := by
  induction ls with
  | nil => rfl
  | cons line rest ih =>
    obtain ⟨hline, hrest⟩ := List.forall_mem_cons.1 h
    rw [List.flatMap_cons, List.append_assoc, List.singleton_append, lines_append hline, ih hrest,
      List.map_cons]

/-- A text that is a line is cut nowhere. -/
theorem IsLine.lines_eq (h : IsLine line) : lines line = [line] := by
  have hls : AreLines [line] :=
    ⟨List.forall_mem_singleton.2 h, List.pairwise_singleton _ _⟩
  have hlines := lines_flatten hls
  rwa [List.flatten_singleton] at hlines

/-- The text without one of its lines. -/
def dropLine (index : Nat) (text : List Char) : List Char := ((lines text).eraseIdx index).flatten

/-- The other lines stay as they are. -/
theorem lines_dropLine (index : Nat) (text : List Char) :
    lines (dropLine index text) = (lines text).eraseIdx index := by
  have hsub := List.eraseIdx_sublist (lines text) index
  obtain ⟨hlines, hends⟩ := areLines_lines text
  exact lines_flatten ⟨fun line h => hlines line (hsub.subset h), hends.sublist hsub⟩

end Text

end Arbor
