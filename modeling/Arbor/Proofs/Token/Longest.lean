import Arbor.Proofs.Token.Word
import Mathlib.Data.List.Induction

/-!
# Greedy scanning

What a text is read as is said here without a scanner. A *lexeme* is a sign, a run of digits or a
name (`Token.IsLexeme`), and denotes at most one token (`Token.Denotes`). A text is read from the
front (`Token.Reads`): blanks are skipped, and wherever there is something else, the longest lexeme
that starts there is taken. It comes to a place that is unreadable (`Token.IsUnreadable`) if no
lexeme starts there, or if the longest is a run of digits with too large a value.

A scan finds exactly this, the tokens of the whole text or the first place that is unreadable
(`Token.scan_longest_lexemes`). The reason is that the lexeme at which a scan looks is the longest
there is (`Token.isLongest_cons_iff`).
-/

namespace Arbor

namespace Token

/-! ### Lexemes and what they denote -/

/-- The signs, with what they denote. -/
def signs : List (List Char × Token) :=
  [(['=', '='], equals), (['!', '='], notEquals), (['='], assign), (['+'], plus), (['-'], minus),
    (['*'], star), (['/'], slash), (['('], leftParen), ([')'], rightParen), (['\n'], terminator),
    ([';'], terminator)]

/-- The names that are keywords, with what they denote. -/
def keywords : List (String × Token) :=
  [("true", boolean true), ("false", boolean false), ("nil", nil)]

/-- The decimal digits of a number, behind so many zeros. -/
def numeral (zeros value : Nat) : List Char := List.replicate zeros '0' ++ Nat.toDigits 10 value

/-- A sign, a run of digits, or a name, which may be a keyword. -/
inductive IsLexeme : List Char → Prop
  | sign {word : List Char} : word ∈ signs.map (·.1) → IsLexeme word
  | digits {word : List Char} : word ≠ [] → (∀ d ∈ word, d.isDigit = true) → IsLexeme word
  | name {c : Char} {word : List Char} : isNameStart c = true →
      (∀ d ∈ word, isNamePart d = true) → IsLexeme (c :: word)

/-- The longest lexeme that a text begins with. -/
structure IsLongest (word text : List Char) : Prop where
  isLexeme : IsLexeme word
  prefix_text : word <+: text
  length_le : ∀ other, IsLexeme other → other <+: text → other.length ≤ word.length

/-- The token that a lexeme denotes. Digits denote their value, if it fits 64 bits, and a name that
    is no keyword denotes itself. -/
inductive Denotes : List Char → Token → Prop
  | sign {word : List Char} {t : Token} : (word, t) ∈ signs → Denotes word t
  | keyword {text : String} {t : Token} : (text, t) ∈ keywords → Denotes text.toList t
  | numeral {zeros value : Nat} : value ≤ Integer.largest →
      Denotes (numeral zeros value) (number value)
  | name {text : String} : IsName text → Denotes text.toList (ident text)

/-- What `before` is read as, when `rest` follows it. -/
inductive Reads : (before : List Char) → List Token → (rest : List Char) → Prop
  | nil {rest : List Char} : Reads [] [] rest
  | blank {c : Char} {before rest : List Char} {tokens : List Token} : isBlank c = true →
      Reads before tokens rest → Reads (c :: before) tokens rest
  | lexeme {word before rest : List Char} {t : Token} {tokens : List Token} :
      IsLongest word (word ++ (before ++ rest)) → Denotes word t → Reads before tokens rest →
      Reads (word ++ before) (t :: tokens) rest

/-- No token starts with `bad` when `after` follows it: `bad` is a character that is no blank and
    starts no lexeme, or all of a run of digits whose value does not fit 64 bits. -/
inductive IsUnreadable : (bad after : List Char) → Prop
  | stray {c : Char} {after : List Char} : isBlank c = false →
      (∀ word, IsLexeme word → ¬ word <+: c :: after) → IsUnreadable [c] after
  | tooLarge {zeros value : Nat} {after : List Char} : Integer.largest < value →
      IsLongest (numeral zeros value) (numeral zeros value ++ after) →
      IsUnreadable (numeral zeros value) after

variable {c : Char} {word rest text : List Char} {t : Token} {zeros value : Nat}

/-! ### Digits and their values -/

theorem isDigit_of_mem_numeral (h : c ∈ numeral zeros value) : c.isDigit = true := by
  rcases List.mem_append.1 h with hzero | hdigit
  · rw [(List.mem_replicate.1 hzero).2]
    rfl
  · exact Nat.isDigit_of_mem_toDigits (by decide) (by decide) hdigit

theorem numeral_ne_nil (zeros value : Nat) : numeral zeros value ≠ [] :=
  List.append_ne_nil_of_right_ne_nil _ Nat.toDigits_ne_nil

/-- Leading zeros do not change the value. -/
theorem ofDigitChars_numeral (zeros value : Nat) :
    Nat.ofDigitChars 10 (numeral zeros value) 0 = value := by
  rw [numeral, Nat.ofDigitChars_append, Nat.ofDigitChars_replicate_zero, Nat.mul_zero,
    Nat.ofDigitChars_ten_toDigits]

theorem exists_digitChar (h : c.isDigit = true) : ∃ d < 10, c = Nat.digitChar d := by
  obtain ⟨hle, hge⟩ := Char.isDigit_iff_toNat.1 h
  have hlt : c.toNat - 48 < 10 := by
    have : c.toNat ≤ 57 := hge
    omega
  refine ⟨c.toNat - 48, hlt, Char.toNat_inj.1 ?_⟩
  rw [Nat.toNat_digitChar_of_lt_ten hlt]
  have : 48 ≤ c.toNat := hle
  omega

/-- Every run of digits is a number behind zeros. -/
theorem exists_numeral (hne : word ≠ []) (h : ∀ d ∈ word, d.isDigit = true) :
    ∃ zeros value, word = numeral zeros value := by
  induction word using List.reverseRecOn with
  | nil => exact absurd rfl hne
  | append_singleton word c ih =>
    obtain ⟨hword, hc⟩ := List.forall_mem_append.1 h
    obtain ⟨d, hd, rfl⟩ := exists_digitChar (hc c List.mem_cons_self)
    have hlast : [Nat.digitChar d] = Nat.toDigits 10 d := (Nat.toDigits_of_lt_base hd).symm
    rcases word with _ | ⟨first, word⟩
    · exact ⟨0, d, hlast⟩
    · obtain ⟨zeros, value, hnumeral⟩ := ih (List.cons_ne_nil _ _) hword
      rw [hnumeral, numeral, hlast, List.append_assoc]
      rcases Nat.eq_zero_or_pos value with rfl | hpos
      · -- The number so far is one more zero.
        refine ⟨zeros + 1, d, ?_⟩
        rw [numeral, List.replicate_succ', List.append_assoc, Nat.toDigits_zero]
      · exact ⟨zeros, 10 * value + d, by
          rw [numeral, Nat.toDigits_append_toDigits (by decide) hpos hd]⟩

theorem ofLexeme?_numeral (zeros value : Nat) :
    ofLexeme? (numeral zeros value) =
      if value ≤ Integer.largest then some (number value) else none := by
  obtain ⟨c, word, hcons⟩ := List.exists_cons_of_ne_nil (numeral_ne_nil zeros value)
  have hc : c.isDigit = true := isDigit_of_mem_numeral (hcons ▸ List.mem_cons_self)
  rw [hcons, ofLexeme?_of_isNamePart (isNamePart_of_isDigit hc), if_pos hc, ofDigits?, ← hcons,
    ofDigitChars_numeral]

/-! ### The token of a lexeme -/

theorem ofLexeme?_of_mem_signs : ∀ p ∈ signs, ofLexeme? p.1 = some p.2 := by decide

theorem ofLexeme?_of_mem_keywords : ∀ p ∈ keywords, ofLexeme? p.1.toList = some p.2 := by
  decide +kernel

/-- What a lexeme denotes is told from it. -/
theorem Denotes.ofLexeme?_eq (h : Denotes word t) : ofLexeme? word = some t := by
  cases h with
  | sign hmem => exact ofLexeme?_of_mem_signs _ hmem
  | keyword hmem => exact ofLexeme?_of_mem_keywords _ hmem
  | numeral hle => rw [ofLexeme?_numeral, if_pos hle]
  | name hname => exact ofLexeme?_of_isName hname

/-- A name denotes a keyword or itself. -/
theorem denotes_ofName {text : String} (ht : text.toList = c :: word) (hc : isNameStart c = true)
    (hw : ∀ d ∈ word, isNamePart d = true) : Denotes text.toList (ofName text) := by
  unfold ofName
  split
  · next h => exact .keyword (by rw [h]; decide)
  · next htrue =>
    split
    · next h => exact .keyword (by rw [h]; decide)
    · next hfalse =>
      split
      · next h => exact .keyword (by rw [h]; decide)
      · next hnil => exact .name ⟨⟨c, word, ht, hc, hw⟩, by simp [htrue, hfalse, hnil]⟩

/-- A lexeme denotes a token, unless it is a run of digits with too large a value. -/
theorem IsLexeme.denotes_or (h : IsLexeme word) :
    (∃ t, Denotes word t) ∨
      ∃ zeros value, Integer.largest < value ∧ word = numeral zeros value := by
  cases h with
  | sign hmem =>
    obtain ⟨⟨word, t⟩, hsign, rfl⟩ := List.mem_map.1 hmem
    exact .inl ⟨t, .sign hsign⟩
  | @name c word hc hw =>
    have htext : (String.ofList (c :: word)).toList = c :: word := String.toList_ofList
    exact .inl ⟨_, htext ▸ denotes_ofName htext hc hw⟩
  | digits hne hw =>
    obtain ⟨zeros, value, rfl⟩ := exists_numeral hne hw
    rcases Nat.lt_or_ge Integer.largest value with hlt | hle
    · exact .inr ⟨zeros, value, hlt, rfl⟩
    · exact .inl ⟨_, .numeral hle⟩

/-! ### The longest lexeme -/

theorem shape_of_mem_signs :
    ∀ word ∈ signs.map (·.1), word ≠ [] ∧ word.all (!isBlank ·) = true ∧
      (word.tail = [] ∨ word.tail = ['='] ∧ (word.head? = some '=' ∨ word.head? = some '!')) := by
  decide

/-- A lexeme starts with a character that is no blank. -/
theorem IsLexeme.exists_cons (h : IsLexeme word) :
    ∃ c rest, word = c :: rest ∧ isBlank c = false := by
  cases h with
  | sign hmem =>
    obtain ⟨hne, hall, -⟩ := shape_of_mem_signs _ hmem
    obtain ⟨c, rest, rfl⟩ := List.exists_cons_of_ne_nil hne
    rw [List.all_cons, Bool.and_eq_true, Bool.not_eq_true'] at hall
    exact ⟨c, rest, rfl, hall.1⟩
  | digits hne hw =>
    obtain ⟨c, rest, rfl⟩ := List.exists_cons_of_ne_nil hne
    exact ⟨c, rest, rfl,
      isBlank_eq_false_of_isNamePart (isNamePart_of_isDigit (hw c List.mem_cons_self))⟩
  | name hc _ => exact ⟨_, _, rfl, isBlank_eq_false_of_isNamePart (isNamePart_of_isNameStart hc)⟩

theorem prefix_takeWhile {p : Char → Bool} (hp : word <+: rest) (h : ∀ d ∈ word, p d = true) :
    word <+: rest.takeWhile p := by
  obtain ⟨after, rfl⟩ := hp
  rw [List.takeWhile_append_of_pos h]
  exact List.prefix_append _ _

/-- What is spelled is a run of digits or of parts of a name, the second character of a sign, or
    nothing. -/
theorem spelled_cases (c : Char) (rest : List Char) :
    (c.isDigit = true ∧ spelled c rest = rest.takeWhile Char.isDigit) ∨
      (isNameStart c = true ∧ spelled c rest = rest.takeWhile isNamePart) ∨
        ((c = '=' ∨ c = '!') ∧ ∃ after, rest = '=' :: after ∧ spelled c rest = ['=']) ∨
          spelled c rest = [] := by
  by_cases hd : c.isDigit = true
  · exact .inl ⟨hd, spelled_of_isDigit hd rest⟩
  by_cases hs : isNameStart c = true
  · exact .inr (.inl ⟨hs, spelled_of_isNameStart hs rest⟩)
  by_cases he : c = '=' ∨ c = '!'
  · have hspelled : spelled c rest = (rest.take 1).filter (· == '=') := by
      rcases he with rfl | rfl <;> rfl
    rw [hspelled]
    rcases rest with _ | ⟨d, after⟩
    · exact .inr (.inr (.inr rfl))
    by_cases hd : d = '='
    · subst hd
      exact .inr (.inr (.inl ⟨he, after, rfl, rfl⟩))
    · exact .inr (.inr (.inr (by simp [hd])))
  · rw [not_or] at he
    exact .inr (.inr (.inr (by simp [spelled, hd, hs, he])))

theorem spelled_isPrefix (c : Char) (rest : List Char) : spelled c rest <+: rest := by
  rcases spelled_cases c rest with ⟨-, h⟩ | ⟨-, h⟩ | ⟨-, after, rfl, h⟩ | h <;> rw [h]
  · exact List.takeWhile_prefix _
  · exact List.takeWhile_prefix _
  · exact ⟨after, rfl⟩
  · exact List.nil_prefix

/-- What is spelled is no lexeme only if it is a single character. -/
theorem isLexeme_cons_spelled_or (c : Char) (rest : List Char) :
    IsLexeme (c :: spelled c rest) ∨ spelled c rest = [] := by
  rcases spelled_cases c rest with ⟨hd, h⟩ | ⟨hs, h⟩ | ⟨rfl | rfl, after, rfl, h⟩ | h <;> rw [h]
  · exact .inl (.digits (List.cons_ne_nil _ _)
      (List.forall_mem_cons.2 ⟨hd, List.all_eq_true.1 List.all_takeWhile⟩))
  · exact .inl (.name hs (List.all_eq_true.1 List.all_takeWhile))
  · exact .inl (.sign (by decide))
  · exact .inl (.sign (by decide))
  · exact .inr rfl

/-- A lexeme is part of what is spelled. -/
theorem IsLexeme.prefix_spelled (h : IsLexeme (c :: word)) (hp : word <+: rest) :
    word <+: spelled c rest := by
  cases h with
  | digits _ hw =>
    obtain ⟨hc, hw⟩ := List.forall_mem_cons.1 hw
    rw [spelled_of_isDigit hc]
    exact prefix_takeWhile hp hw
  | name hc hw =>
    rw [spelled_of_isNameStart hc]
    exact prefix_takeWhile hp hw
  | sign hmem =>
    obtain ⟨-, -, rfl | ⟨rfl, hc⟩⟩ := shape_of_mem_signs _ hmem
    · exact List.nil_prefix
    · obtain ⟨after, rfl⟩ := hp
      rcases hc with hc | hc <;> cases Option.some.inj hc <;> exact List.prefix_rfl

/-- If a lexeme starts with the character, what is spelled is one. -/
theorem IsLexeme.cons_spelled (h : IsLexeme (c :: word)) (hp : word <+: rest) :
    IsLexeme (c :: spelled c rest) := by
  rcases isLexeme_cons_spelled_or c rest with hlexeme | hnil
  · exact hlexeme
  · have hword := h.prefix_spelled hp
    rw [hnil, List.prefix_nil] at hword
    rwa [hnil, ← hword]

/-- The longest lexeme is what is spelled. -/
theorem isLongest_cons_iff :
    IsLongest (c :: word) (c :: rest) ↔ word = spelled c rest ∧ IsLexeme (c :: word) := by
  constructor
  · rintro ⟨hlexeme, hprefix, hmax⟩
    have hword : word <+: rest := (List.cons_prefix_cons.1 hprefix).2
    have hle := hmax _ (hlexeme.cons_spelled hword)
      (List.cons_prefix_cons.2 ⟨rfl, spelled_isPrefix c rest⟩)
    exact ⟨(hlexeme.prefix_spelled hword).eq_of_length_le (Nat.le_of_succ_le_succ hle), hlexeme⟩
  · rintro ⟨rfl, hlexeme⟩
    refine ⟨hlexeme, List.cons_prefix_cons.2 ⟨rfl, spelled_isPrefix c rest⟩,
      fun other ho hother => ?_⟩
    obtain ⟨d, word, rfl, -⟩ := ho.exists_cons
    obtain ⟨rfl, hword⟩ := List.cons_prefix_cons.1 hother
    exact Nat.succ_le_succ (ho.prefix_spelled hword).length_le

/-- The longest lexeme of a text is that of a shorter text which still holds it. -/
theorem IsLongest.of_prefix (h : IsLongest word text) (hword : word <+: rest)
    (hrest : rest <+: text) : IsLongest word rest where
  isLexeme := h.isLexeme
  prefix_text := hword
  length_le other ho hother := h.length_le other ho (hother.trans hrest)

/-! ### Scanning what is read -/

/-- A scan takes the longest lexeme for the token that it denotes. -/
theorem scanFrom_longest (h : IsLongest word (word ++ rest)) (hd : Denotes word t) (start : Nat)
    (found : List Token) :
    scanFrom (word ++ rest) start found =
      scanFrom rest (start + (String.ofList word).utf8ByteSize) (t :: found) := by
  obtain ⟨c, word, rfl, hb⟩ := h.isLexeme.exists_cons
  exact scanFrom_lexeme hb (isLongest_cons_iff.1 h).1.symm hd.ofLexeme?_eq start found

/-- A scan goes on behind what it reads. -/
theorem Reads.scanFrom_eq {before : List Char} {tokens : List Token} (h : Reads before tokens rest)
    (start : Nat) (found : List Token) :
    scanFrom (before ++ rest) start found =
      scanFrom rest (start + (String.ofList before).utf8ByteSize) (tokens.reverse ++ found) := by
  induction h generalizing start found with
  | nil => rfl
  | @blank c before rest tokens hb _ ih =>
    rw [List.cons_append, scanFrom_blank hb, ih, String.ofList_cons, String.utf8ByteSize_append,
      String.utf8ByteSize_singleton, Nat.add_assoc]
  | lexeme hlongest hd _ ih =>
    rw [List.append_assoc, scanFrom_longest hlongest hd, ih, String.ofList_append,
      String.utf8ByteSize_append, Nat.add_assoc, List.reverse_cons, List.append_assoc]
    rfl

/-- A character that is no lexeme denotes nothing. -/
theorem ofLexeme?_singleton (h : ¬ IsLexeme [c]) : ofLexeme? [c] = none := by
  unfold ofLexeme?
  split
  case h_13 he =>
    cases he
    have hd : ¬ c.isDigit = true := fun hd =>
      h (.digits (List.cons_ne_nil _ _) (List.forall_mem_singleton.2 hd))
    have hs : ¬ isNameStart c = true := fun hs => h (.name hs (List.forall_mem_nil _))
    rw [if_neg hd, if_neg hs]
  all_goals next he => cases he <;> exact absurd (.sign (by decide)) h

/-- A scan ends at a place that is unreadable. -/
theorem IsUnreadable.scanFrom_eq {bad after : List Char} (h : IsUnreadable bad after) (start : Nat)
    (found : List Token) :
    scanFrom (bad ++ after) start found = .error ⟨start, String.ofList bad⟩ := by
  cases h with
  | @stray c _ hb hnone =>
    have hlexeme : ¬ IsLexeme (c :: spelled c after) := fun h =>
      hnone _ h (List.cons_prefix_cons.2 ⟨rfl, spelled_isPrefix c after⟩)
    have hs : spelled c after = [] := (isLexeme_cons_spelled_or c after).resolve_left hlexeme
    rw [hs] at hlexeme
    exact @scanFrom_error c [] after hb hs (ofLexeme?_singleton hlexeme) start found
  | @tooLarge zeros value _ hlt hlongest =>
    have ht : ofLexeme? (numeral zeros value) = none := by
      rw [ofLexeme?_numeral, if_neg (Nat.not_le_of_lt hlt)]
    obtain ⟨c, word, hcons, hb⟩ := hlongest.isLexeme.exists_cons
    rw [hcons] at hlongest ht ⊢
    exact scanFrom_error hb (isLongest_cons_iff.1 hlongest).1.symm ht start found

/-! ### Reading all there is -/

/-- What is read is read as the same tokens when less follows. -/
theorem Reads.of_append {before after : List Char} {tokens : List Token}
    (h : Reads before tokens (rest ++ after)) : Reads before tokens rest := by
  generalize hall : rest ++ after = all at h
  induction h with
  | nil => exact .nil
  | blank hb _ ih => exact .blank hb (ih hall)
  | lexeme hlongest hd _ ih =>
    subst hall
    refine .lexeme (hlongest.of_prefix (List.prefix_append _ _) ?_) hd (ih rfl)
    rw [← List.append_assoc _ rest, ← List.append_assoc _ _ after]
    exact List.prefix_append _ _

/-- What is no blank starts with a longest lexeme that denotes a token, or is unreadable. -/
theorem exists_longest_or (hb : isBlank c = false) (rest : List Char) :
    ∃ word after, c :: rest = word ++ after ∧ word ≠ [] ∧
      ((∃ t, IsLongest word (word ++ after) ∧ Denotes word t) ∨ IsUnreadable word after) := by
  by_cases hlexeme : IsLexeme (c :: spelled c rest)
  · obtain ⟨after, hrest⟩ := spelled_isPrefix c rest
    have hlongest : IsLongest (c :: spelled c rest) (c :: spelled c rest ++ after) := by
      rw [List.cons_append, hrest]
      exact isLongest_cons_iff.2 ⟨rfl, hlexeme⟩
    refine ⟨c :: spelled c rest, after, by rw [List.cons_append, hrest], List.cons_ne_nil _ _, ?_⟩
    rcases hlexeme.denotes_or with ⟨t, hd⟩ | ⟨zeros, value, hlt, hnumeral⟩
    · exact .inl ⟨t, hlongest, hd⟩
    · rw [hnumeral] at hlongest ⊢
      exact .inr (.tooLarge hlt hlongest)
  · refine ⟨[c], rest, rfl, List.cons_ne_nil _ _, .inr (.stray hb fun word hword hprefix => ?_)⟩
    obtain ⟨d, word, rfl, -⟩ := hword.exists_cons
    obtain ⟨rfl, hrest⟩ := List.cons_prefix_cons.1 hprefix
    exact hlexeme (hword.cons_spelled hrest)

/-- Every text is read up to its end, or to a place that is unreadable. -/
theorem exists_reads (text : List Char) :
    ∃ before tokens rest, text = before ++ rest ∧ Reads before tokens rest ∧
      (rest = [] ∨ ∃ bad after, rest = bad ++ after ∧ IsUnreadable bad after) := by
  induction hlength : text.length using Nat.strongRecOn generalizing text with
  | ind length ih =>
  subst hlength
  rcases text with _ | ⟨c, text⟩
  · exact ⟨[], [], [], rfl, .nil, .inl rfl⟩
  by_cases hb : isBlank c = true
  · obtain ⟨before, tokens, rest, rfl, hreads, hend⟩ := ih _ (Nat.lt_succ_self _) text rfl
    exact ⟨c :: before, tokens, rest, rfl, .blank hb hreads, hend⟩
  obtain ⟨word, after, htext, hne, ⟨t, hlongest, hd⟩ | hbad⟩ :=
    exists_longest_or (Bool.eq_false_iff.2 hb) text
  · have hless : after.length < (c :: text).length := by
      rw [htext, List.length_append]
      exact Nat.lt_add_of_pos_left (List.length_pos_iff.2 hne)
    obtain ⟨before, tokens, rest, rfl, hreads, hend⟩ := ih _ hless after rfl
    exact ⟨word ++ before, t :: tokens, rest, htext.trans (List.append_assoc _ _ _).symm,
      .lexeme hlongest hd hreads, hend⟩
  · exact ⟨[], [], c :: text, rfl, .nil, .inr ⟨word, after, htext, hbad⟩⟩

/-- A text is read to its end, or is cut at the first place that is unreadable. -/
theorem reads_or (source : String) :
    (∃ tokens, Reads source.toList tokens []) ∨
      ∃ before bad after tokens, source = before ++ bad ++ after ∧
        Reads before.toList tokens (bad ++ after).toList ∧
          IsUnreadable bad.toList after.toList := by
  obtain ⟨before, tokens, rest, hsource, hreads, rfl | ⟨bad, after, rfl, hbad⟩⟩ :=
    exists_reads source.toList
  · rw [List.append_nil] at hsource
    exact .inl ⟨tokens, hsource ▸ hreads⟩
  · refine .inr ⟨.ofList before, .ofList bad, .ofList after, tokens, ?_, ?_, ?_⟩
    · rw [← String.toList_inj, hsource, String.toList_append, String.toList_append,
        String.toList_ofList, String.toList_ofList, String.toList_ofList, List.append_assoc]
    · rwa [String.toList_append, String.toList_ofList, String.toList_ofList, String.toList_ofList]
    · rwa [String.toList_ofList, String.toList_ofList]

/-- A text that is read to its end is scanned. -/
theorem Reads.scan_eq {source : String} {tokens : List Token} (h : Reads source.toList tokens []) :
    scan source = .ok tokens := by
  have hscan := h.scanFrom_eq 0 []
  rwa [List.append_nil, List.append_nil, scanFrom.eq_1, List.reverse_reverse] at hscan

/-- The scan of a text that is read up to a place which is unreadable. -/
theorem Reads.scan_eq_error {source before bad after : String} {tokens : List Token}
    (hsource : source = before ++ bad ++ after)
    (h : Reads before.toList tokens (bad ++ after).toList)
    (hbad : IsUnreadable bad.toList after.toList) :
    scan source = .error ⟨before.utf8ByteSize, bad⟩ := by
  have hscan := h.scanFrom_eq 0 []
  rw [String.toList_append, hbad.scanFrom_eq, Nat.zero_add, String.ofList_toList,
    String.ofList_toList] at hscan
  rwa [scan, hsource, String.toList_append, String.toList_append, List.append_assoc]

/-- A scan is greedy. It gives the tokens of a text if all of the text is read as these, each from
    the longest lexeme that starts at its place. Else it ends with the first place that is
    unreadable: the text before it is read, and would be scanned by itself, and the error has its
    byte offset and its text, a whole character or a whole run of digits. -/
theorem scan_longest_lexemes (source : String) :
    (∀ tokens, scan source = .ok tokens ↔ Reads source.toList tokens []) ∧
      ∀ e, scan source = .error e ↔
        ∃ before after tokens, source = before ++ e.text ++ after ∧
          e.start = before.utf8ByteSize ∧ Reads before.toList tokens (e.text ++ after).toList ∧
            IsUnreadable e.text.toList after.toList ∧ scan before = .ok tokens := by
  -- Reading and scanning are compared once, in the direction from a reading to its scan.
  have hcases := reads_or source
  constructor
  · intro tokens
    refine ⟨fun h => ?_, Reads.scan_eq⟩
    rcases hcases with ⟨tokens', hreads⟩ | ⟨before, bad, after, tokens', hsource, hreads, hbad⟩
    · cases h.symm.trans hreads.scan_eq
      exact hreads
    · cases h.symm.trans (hreads.scan_eq_error hsource hbad)
  · intro e
    constructor
    · intro h
      rcases hcases with ⟨tokens, hreads⟩ | ⟨before, bad, after, tokens, hsource, hreads, hbad⟩
      · cases h.symm.trans hreads.scan_eq
      · cases h.symm.trans (hreads.scan_eq_error hsource hbad)
        exact ⟨before, after, tokens, hsource, rfl, hreads, hbad,
          Reads.scan_eq (@Reads.of_append [] _ _ _ hreads)⟩
    · rintro ⟨before, after, tokens, hsource, hstart, hreads, hbad, -⟩
      rw [hreads.scan_eq_error hsource hbad, ← hstart]

example : scan "é==!= !" = .error ⟨0, "é"⟩ ∧ scan "\t==!= !" = .error ⟨6, "!"⟩ ∧
    scan "nil2==007;" = .ok [ident "nil2", equals, number 7, terminator] := by
  decide +kernel

end Token

end Arbor
