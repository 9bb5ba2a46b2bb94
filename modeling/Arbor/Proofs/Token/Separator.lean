import Arbor.Proofs.Token.Longest

/-!
# Texts on both sides of a separator

What is spelled in front of a separator does not depend on what comes behind it. So a text with a
separator in it is scanned up to the separator, whatever stands behind it, and from there on,
whatever stands before it (`Token.scanFrom_append_cons`). How far a scan has come and what it has
found only shows in the offset of its error and in front of its tokens (`Token.scanFrom_add`). Both
together say how the scan of the text is put together from those of its parts
(`Token.scan_append_separator`), with the cases in `Token.scan_separated`.
-/

namespace Arbor

namespace ScanError

/-- The same error behind so many bytes more. -/
def shift (e : ScanError) (bytes : Nat) : ScanError := { e with start := e.start + bytes }

theorem stop_shift (e : ScanError) (bytes : Nat) : (e.shift bytes).stop = e.stop + bytes :=
  Nat.add_right_comm _ _ _

end ScanError

namespace Token

/-- What a separator is read as. -/
def ofSeparator (c : Char) : List Token := if isBlank c then [] else [terminator]

variable {s : Char} {text rest : List Char}

/-- A scan goes on behind a separator. -/
theorem scanFrom_separator (hs : isSeparator s = true) (rest : List Char) (start : Nat)
    (found : List Token) :
    scanFrom (s :: rest) start found = scanFrom rest (start + 1) (ofSeparator s ++ found) := by
  simp only [isSeparator, Bool.or_eq_true, beq_iff_eq] at hs
  rcases hs with (hb | rfl) | rfl
  · have hsize : s.utf8Size = 1 := by
      simp only [isBlank, Bool.or_eq_true, beq_iff_eq] at hb
      rcases hb with (rfl | rfl) | rfl <;> rfl
    rw [scanFrom_blank hb, hsize, ofSeparator, if_pos hb, List.nil_append]
  · exact @scanFrom_lexeme '\n' [] rest terminator rfl rfl rfl start found
  · exact @scanFrom_lexeme ';' [] rest terminator rfl rfl rfl start found

/-- The lexeme that a text begins with is the same in front of a separator. -/
theorem exists_spelled_append (hs : isSeparator s = true) (c : Char) (text rest : List Char) :
    ∃ after, text = spelled c text ++ after ∧
      c :: text ++ s :: rest = c :: (spelled c text ++ (after ++ s :: rest)) ∧
      spelled c (spelled c text ++ (after ++ s :: rest)) = spelled c text := by
  obtain ⟨after, hafter⟩ := spelled_isPrefix c text
  have htext : text ++ s :: rest = spelled c text ++ (after ++ s :: rest) := by
    rw [← List.append_assoc, hafter]
  refine ⟨after, hafter.symm, congrArg (c :: ·) htext, ?_⟩
  rw [← htext]
  exact spelled_append_separator hs c text rest

/-- A scan comes to a separator as it comes to the end of the text in front of it, and goes on from
    there. -/
theorem scanFrom_append_cons (hs : isSeparator s = true) (text rest : List Char) (start : Nat)
    (found : List Token) :
    scanFrom (text ++ s :: rest) start found =
      scanFrom text start found >>= fun tokens =>
        scanFrom (s :: rest) (start + (String.ofList text).utf8ByteSize) tokens.reverse := by
  fun_induction scanFrom text start found with
  | case1 start found =>
    rw [List.nil_append]
    exact (congrArg (scanFrom (s :: rest) start) (List.reverse_reverse found)).symm
  | case2 start found c text hb ih =>
    rw [List.cons_append, scanFrom_blank hb, ih, String.ofList_cons, String.utf8ByteSize_append,
      String.utf8ByteSize_singleton, Nat.add_assoc]
  | case3 start found c text hb lexeme t ht ih =>
    obtain ⟨after, htext, hjoined, hspelled⟩ := exists_spelled_append hs c text rest
    have hdrop : text.drop (spelled c text).length = after :=
      (congrArg (List.drop _) htext).trans List.drop_left
    have hsize : (String.ofList (c :: text)).utf8ByteSize =
        lexeme.utf8ByteSize + (String.ofList after).utf8ByteSize := by
      rw [← String.utf8ByteSize_append, ← String.ofList_append, List.cons_append, ← htext]
    rw [hdrop] at ih
    rw [hdrop, hsize, ← Nat.add_assoc, ← ih, hjoined,
      scanFrom_lexeme (Bool.eq_false_iff.2 hb) hspelled ht start found]
  | case4 start found c text hb lexeme ht =>
    obtain ⟨after, -, hjoined, hspelled⟩ := exists_spelled_append hs c text rest
    rw [hjoined, scanFrom_error (Bool.eq_false_iff.2 hb) hspelled ht start found]
    rfl

/-- How far a scan has come and what it has found changes nothing else. -/
theorem scanFrom_add (text : List Char) (start bytes : Nat) (found past : List Token) :
    scanFrom text (start + bytes) (found ++ past) =
      ((scanFrom text start found).mapError (·.shift bytes)).map (past.reverse ++ ·) := by
  fun_induction scanFrom text start found with
  | case1 start found =>
    rw [scanFrom.eq_1, List.reverse_append]
    rfl
  | case2 start found c text hb ih => rw [scanFrom_blank hb, Nat.add_right_comm, ih]
  | case3 start found c text hb lexeme t ht ih =>
    rw [scanFrom, if_neg hb, ← ih, Nat.add_right_comm]
    simp only [ht]
    rfl
  | case4 start found c text hb lexeme ht =>
    rw [scanFrom, if_neg hb]
    simp only [ht]
    rfl

/-- The scan of a text with a separator is that of the text in front of it, and then that of the
    text behind it. -/
theorem scan_append_separator (hs : isSeparator s = true) (a b : String) :
    scan (a ++ String.singleton s ++ b) = (do
      let before ← scan a
      let behind ← (scan b).mapError (·.shift (a.utf8ByteSize + 1))
      return before ++ ofSeparator s ++ behind) := by
  have hchars : (a ++ String.singleton s ++ b).toList = a.toList ++ s :: b.toList := by
    rw [String.toList_append, String.toList_append, List.append_assoc, String.toList_singleton]
    rfl
  rw [scan, hchars, scanFrom_append_cons hs, scan]
  cases scanFrom a.toList 0 [] with
  | error e => rfl
  | ok before =>
    have hbehind := scanFrom_add b.toList 0 (a.utf8ByteSize + 1) [] (ofSeparator s ++ before.reverse)
    rw [Nat.zero_add, List.nil_append] at hbehind
    change scanFrom (s :: b.toList) _ _ = _
    rw [scanFrom_separator hs, Nat.zero_add, String.ofList_toList, hbehind, ← scan,
      List.reverse_append, List.reverse_reverse]
    have hreverse : (ofSeparator s).reverse = ofSeparator s := by
      unfold ofSeparator
      split <;> rfl
    rw [hreverse]
    cases scan b <;> rfl

/-- A text with a separator is made of tokens if the texts on both sides are. -/
theorem scan_append_separator_eq_ok_iff (hs : isSeparator s = true) {a b : String}
    {tokens : List Token} :
    scan (a ++ String.singleton s ++ b) = .ok tokens ↔
      ∃ before behind, scan a = .ok before ∧ scan b = .ok behind ∧
        before ++ ofSeparator s ++ behind = tokens := by
  rw [scan_append_separator hs]
  rcases scan a with e | before
  · exact ⟨nofun, fun ⟨_, _, h, _⟩ => nomatch h⟩
  rcases scan b with e | behind
  · exact ⟨nofun, fun ⟨_, _, _, h, _⟩ => nomatch h⟩
  constructor
  · rintro ⟨rfl⟩
    exact ⟨before, behind, rfl, rfl, rfl⟩
  · rintro ⟨_, _, ⟨rfl⟩, ⟨rfl⟩, rfl⟩
    rfl

/-! ### Blanks -/

/-- Nothing is read in blanks, whatever is behind them. -/
theorem reads_blanks (h : ∀ c ∈ text, isBlank c = true) : Reads text [] rest := by
  induction text with
  | nil => exact .nil
  | cons c text ih =>
    obtain ⟨hc, htext⟩ := List.forall_mem_cons.1 h
    exact .blank hc (ih htext)

section

variable {blanks : String} (h : ∀ c ∈ blanks.toList, isBlank c = true) (text : String)
  (tokens : List Token)
include h

theorem scan_blanks_append : scan (blanks ++ text) = .ok tokens ↔ scan text = .ok tokens := by
  have hadd := scanFrom_add text.toList 0 blanks.utf8ByteSize [] []
  rw [scan, String.toList_append, (reads_blanks h).scanFrom_eq, String.ofList_toList]
  change scanFrom text.toList (0 + blanks.utf8ByteSize) ([] ++ []) = _ ↔ scan text = _
  rw [hadd, ← scan]
  rcases scan text with e | found
  · constructor <;> rintro ⟨⟩
  · exact Iff.rfl

theorem scan_append_blanks : scan (text ++ blanks) = .ok tokens ↔ scan text = .ok tokens := by
  rcases hblanks : blanks.toList with _ | ⟨c, more⟩
  · rw [String.toList_eq_nil_iff.1 hblanks, String.append_empty]
  · rw [hblanks, List.forall_mem_cons] at h
    have hc : isSeparator c = true := by rw [isSeparator, h.1]; rfl
    have hmore : scan (String.ofList more) = .ok [] :=
      Reads.scan_eq (by rw [String.toList_ofList]; exact reads_blanks h.2)
    have hsplit : text ++ blanks = text ++ String.singleton c ++ String.ofList more := by
      rw [← String.toList_inj]
      simp [hblanks]
    rw [hsplit, scan_append_separator_eq_ok_iff hc, hmore, ofSeparator, if_pos h.1]
    constructor
    · rintro ⟨_, _, hscan, ⟨rfl⟩, rfl⟩
      rw [hscan]
      simp
    · intro hscan
      exact ⟨tokens, [], hscan, rfl, by simp⟩

end

/-- Scanning is compositional at separators. If the text in front of a separator is no sequence of
    tokens, then neither is the whole text, and has the same error. Else the tokens are those in
    front, one for the separator if it is an end of a statement, and those behind, or there is the
    error of the text behind the separator, with its place shifted. And blanks next to a separator,
    on either side of it, may be put in or left out. -/
theorem scan_separated (hs : isSeparator s = true) (a b : String) :
    let joined := a ++ String.singleton s ++ b
    (∀ e, scan a = .error e → scan joined = .error e) ∧
      (∀ before behind, scan a = .ok before → scan b = .ok behind →
        scan joined = .ok (before ++ ofSeparator s ++ behind)) ∧
        (∀ before e, scan a = .ok before → scan b = .error e →
          scan joined = .error (e.shift (a.utf8ByteSize + 1)) ∧
            (e.shift (a.utf8ByteSize + 1)).stop = e.stop + (a.utf8ByteSize + 1)) ∧
          ∀ blanks blanks' : String, (∀ c ∈ blanks.toList, isBlank c = true) →
            (∀ c ∈ blanks'.toList, isBlank c = true) → ∀ tokens,
              scan (a ++ blanks ++ String.singleton s ++ (blanks' ++ b)) = .ok tokens ↔
                scan joined = .ok tokens := by
  intro joined
  have hjoined := scan_append_separator hs a b
  refine ⟨fun e ha => ?_, fun before behind ha hb => ?_, fun before e ha hb => ?_,
    fun blanks blanks' hblanks hblanks' tokens => ?_⟩
  · rw [hjoined, ha]
    rfl
  · rw [hjoined, ha, hb]
    rfl
  · rw [hjoined, ha, hb]
    exact ⟨rfl, e.stop_shift _⟩
  · simp only [joined, scan_append_separator_eq_ok_iff hs, scan_append_blanks hblanks,
      scan_blanks_append hblanks']

/-- The text behind the semicolon has an error, and its place is counted from the start of all. -/
theorem scan_separated_accent :
    let e : ScanError := ⟨2, "é"⟩
    isSeparator ';' = true ∧ scan "x = 007" = .ok [ident "x", assign, number 7] ∧
      scan "y é" = .error e ∧ scan "x = 007;y é" = .error ⟨10, "é"⟩ ∧
        scan "x = 007 ;\t y" = .ok [ident "x", assign, number 7, terminator, ident "y"] := by
  have hfront : scan "x = 007" = .ok [ident "x", assign, number 7] := by decide +kernel
  have hbehind : scan "y é" = .error ⟨2, "é"⟩ := by decide +kernel
  have hy : scan "y" = .ok [ident "y"] := by decide +kernel
  obtain ⟨-, -, herror, -⟩ := @scan_separated ';' rfl "x = 007" "y é"
  obtain ⟨-, hok, -, hblanks⟩ := @scan_separated ';' rfl "x = 007" "y"
  refine ⟨rfl, hfront, hbehind, (herror _ _ hfront hbehind).1, ?_⟩
  have hspace : ∀ c ∈ " ".toList, isBlank c = true := List.all_eq_true.1 (by decide +kernel)
  have htab : ∀ c ∈ "\t ".toList, isBlank c = true := List.all_eq_true.1 (by decide +kernel)
  exact (hblanks " " "\t " hspace htab _).2 (hok _ _ hfront hy)

end Token

end Arbor
