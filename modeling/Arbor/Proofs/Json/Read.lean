import Arbor.Proofs.Json.Lexeme

/-!
# Reading what a text spells

The lexemes of a value are put together to that value, whatever is open around it and
whatever follows, unless the value is nested too deep for the arrays and objects around it
(`Json.assemble?_lexemes`): an array that is open when its items begin is closed behind
them with all items it had, and so is an object with its members. So a text is read as
the value that it spells, up to any limit that is set (`Json.isReader_read?`).
-/

namespace Arbor

namespace Json

variable {limit : Option Nat}

/-- What begins a value does not end an array, so that an item may come first. -/
theorem assemble?_firstItem (j : Json) (opens : List Open) (rest : List Lexeme) :
    assemble? limit .firstItem opens (j.lexemes ++ rest) =
      assemble? limit .value opens (j.lexemes ++ rest) := by
  cases j with
  | array items => cases items <;> rfl
  | object members => cases members <;> rfl
  | _ => rfl

/-- An array is opened if the limit allows for one more. -/
theorem assemble?_openArray (opens : List Open) (rest : List Lexeme) :
    assemble? limit .value opens (.openArray :: rest) =
      if fits limit (opens.length + 1) then assemble? limit .firstItem (.array [] :: opens) rest
      else none := by
  rw [assemble?, follow?, begin?]
  cases fits limit (opens.length + 1) <;> rfl

/-- And so is an object. -/
theorem assemble?_openObject (opens : List Open) (rest : List Lexeme) :
    assemble? limit .value opens (.openObject :: rest) =
      if fits limit (opens.length + 1) then assemble? limit (.name []) opens rest else none := by
  rw [assemble?, follow?, begin?]
  cases fits limit (opens.length + 1) <;> rfl

/-- What stands in brackets fits if its first part does and the others do. -/
theorem ite_fits_max {α : Type} (depth a b : Nat) (o : Option α) :
    (if fits limit (depth + a) then (if fits limit (depth + b) then o else none) else none) =
      if fits limit (depth + max a b) then o else none := by
  rw [← Nat.add_max_add_left, fits_max]
  cases fits limit (depth + a) <;> cases fits limit (depth + b) <;> rfl

mutual

/-- The lexemes of a value are put together to the value if it is not nested too deep. -/
theorem assemble?_lexemes : ∀ (j : Json) (opens : List Open) (rest : List Lexeme),
    fits limit opens.length = true →
      assemble? limit .value opens (j.lexemes ++ rest) =
        if fits limit (opens.length + j.nesting) then assemble? limit (.done j) opens rest else none
  | null, opens, rest, h => (if_pos h).symm
  | bool _, opens, rest, h => (if_pos h).symm
  | int _, opens, rest, h => (if_pos h).symm
  | float _, opens, rest, h => (if_pos h).symm
  | string _, opens, rest, h => (if_pos h).symm
  | array [], opens, rest, _ => assemble?_openArray opens _
  | array (item :: items), opens, rest, _ => by
    rw [lexemes, List.cons_append, List.append_assoc, assemble?_openArray, nesting, nestings,
      ← Nat.add_assoc]
    split
    · -- The bracket opens an array without items, and an item or its end may come.
      next hopen =>
      rw [assemble?_firstItem, assemble?_lexemes item (.array [] :: opens) _ hopen,
        assemble?_itemLexemes items item [] opens rest hopen]
      exact ite_fits_max _ _ _ _
    · -- The bracket itself is one too many, and so are those in it.
      next hopen =>
      exact (if_neg fun h => hopen (fits_of_le (Nat.le_add_right _ _) h)).symm
  | object [], opens, rest, _ => assemble?_openObject opens _
  | object ((name, value) :: members), opens, rest, _ => by
    rw [lexemes, List.cons_append, List.cons_append, List.cons_append, List.append_assoc,
      assemble?_openObject, nesting, memberNestings, ← Nat.add_assoc]
    split
    · next hopen =>
      have hname : assemble? limit (.name []) opens (.scalar (string name) :: .colon ::
            (value.lexemes ++ (memberLexemes members ++ rest))) =
          assemble? limit .value (.object [] name :: opens)
            (value.lexemes ++ (memberLexemes members ++ rest)) := rfl
      rw [hname, assemble?_lexemes value (.object [] name :: opens) _ hopen,
        assemble?_memberLexemes members name value [] opens rest hopen]
      exact ite_fits_max _ _ _ _
    · next hopen =>
      exact (if_neg fun h => hopen (fits_of_le (Nat.le_add_right _ _) h)).symm

/-- The items of an open array come behind those it has. -/
theorem assemble?_itemLexemes : ∀ (items : List Json) (item : Json) (done : List Json)
    (opens : List Open) (rest : List Lexeme), fits limit (opens.length + 1) = true →
      assemble? limit (.done item) (.array done :: opens) (itemLexemes items ++ rest) =
        if fits limit (opens.length + 1 + nestings items) then
          assemble? limit (.done (.array ((item :: done).reverse ++ items))) opens rest
        else none
  | [], item, done, opens, rest, h => by
    rw [List.append_nil]
    exact (if_pos h).symm
  | next :: items, item, done, opens, rest, h => by
    -- The comma adds the finished item to the array, and another one must come.
    have hcomma : assemble? limit (.done item) (.array done :: opens)
          (itemLexemes (next :: items) ++ rest) =
        assemble? limit .value (.array (item :: done) :: opens)
          (next.lexemes ++ (itemLexemes items ++ rest)) := by
      rw [itemLexemes, List.cons_append, List.append_assoc]
      rfl
    rw [hcomma, assemble?_lexemes next (.array (item :: done) :: opens) _ h,
      assemble?_itemLexemes items next (item :: done) _ _ h, List.reverse_cons (a := next),
      List.append_assoc, List.singleton_append]
    exact ite_fits_max _ _ _ _

/-- The members of an open object come behind those it has. -/
theorem assemble?_memberLexemes : ∀ (members : List (String × Json)) (name : String) (value : Json)
    (done : List (String × Json)) (opens : List Open) (rest : List Lexeme),
    fits limit (opens.length + 1) = true →
      assemble? limit (.done value) (.object done name :: opens) (memberLexemes members ++ rest) =
        if fits limit (opens.length + 1 + memberNestings members) then
          assemble? limit (.done (.object (((name, value) :: done).reverse ++ members))) opens rest
        else none
  | [], name, value, done, opens, rest, h => by
    rw [List.append_nil]
    exact (if_pos h).symm
  | (next, nextValue) :: members, name, value, done, opens, rest, h => by
    have hcomma : assemble? limit (.done value) (.object done name :: opens)
          (memberLexemes ((next, nextValue) :: members) ++ rest) =
        assemble? limit .value (.object ((name, value) :: done) next :: opens)
          (nextValue.lexemes ++ (memberLexemes members ++ rest)) := by
      rw [memberLexemes, List.cons_append, List.cons_append, List.cons_append, List.append_assoc]
      rfl
    rw [hcomma, assemble?_lexemes nextValue (.object ((name, value) :: done) next :: opens) _ h,
      assemble?_memberLexemes members next nextValue ((name, value) :: done) _ _ h,
      List.reverse_cons (a := (next, nextValue)), List.append_assoc, List.singleton_append]
    exact ite_fits_max _ _ _ _

end

end Json

end Arbor
