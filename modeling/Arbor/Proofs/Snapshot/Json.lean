import Arbor.Format.Render
import Arbor.Proofs.Json.Read
import Arbor.Proofs.Json.Written

/-!
# Snapshots read back from JSON

A snapshot is written without the member `symbol` if it has no name, and without
`children` if it has none. A missing member is read as just that, in the snapshot as
in all below it; so the text of a snapshot is read back as the same snapshot, with
every name, the empty one included, and every value of 64 bits.

Nothing is asked of the reader but that it reads what the text spells
(`Json.IsReader`). A reader without a limit reads every snapshot back. One that stops at
texts nested too deep reads back just those snapshots that are not too tall: a level of
the tree is an object, and an array between it and the next one
(`Snapshot.nesting_toJson`).
-/

namespace Arbor

namespace Json

/-! ### Members in any order -/

variable {members members' : List (String × Json)}

end Json

namespace Snapshot

/-! ### Members -/

/-- The members that are written for the name of a symbol. -/
def symbolMembers (symbol : Option String) : List (String × Json) :=
  symbol.elim [] fun name => [("symbol", .string name)]

/-- The members that are written for the values of children. -/
def childMembers (items : List Json) : List (String × Json) :=
  if items.isEmpty then [] else [("children", .array items)]

/-- The members that are written for a snapshot whose children have these values. -/
def membersOf (kind : Kind) (value : Int64) (symbol : Option String) (items : List Json) :
    List (String × Json) :=
  ("node_type", .string kind.name) :: ("value", .int value.toInt) ::
    (symbolMembers symbol ++ childMembers items)

section

variable {kind : Kind} {value : Int64} {symbol : Option String} {items : List Json}

theorem nodup_membersOf : ((membersOf kind value symbol items).map (·.1)).Nodup := by
  have hnames : ["node_type", "value", "symbol", "children"].Nodup := by decide
  -- The names of the members that are left out are left out.
  refine hnames.sublist ?_
  cases symbol with
  | none =>
    cases items with
    | nil => exact .cons_cons _ (.cons_cons _ (List.nil_sublist _))
    | cons item items => exact .cons_cons _ (.cons_cons _ (.cons _ (.refl _)))
  | some name =>
    cases items with
    | nil => exact .cons_cons _ (.cons_cons _ (.cons_cons _ (List.nil_sublist _)))
    | cons item items => exact .refl _

theorem memberNestings_membersOf :
    Json.memberNestings (membersOf kind value symbol items) =
      if items.isEmpty then 0 else 1 + Json.nestings items := by
  cases symbol <;> cases items <;>
    simp [membersOf, symbolMembers, childMembers, Json.memberNestings, Json.nesting]

theorem haveExact_membersOf (h : Json.AreExact items) :
    Json.HaveExact (membersOf kind value symbol items) := by
  have hvalue : -(Integer.largest + 1) ≤ value.toInt ∧ value.toInt ≤ 2 * Integer.largest + 1 := by
    have hlow := value.le_toInt
    have hhigh := value.toInt_lt
    simp only [Integer.largest]
    omega
  cases symbol <;> cases items <;>
    simp_all [membersOf, symbolMembers, childMembers, Json.IsExact, Json.HaveExact]

theorem haveDistinct_membersOf (h : Json.AreDistinct items) :
    Json.HaveDistinct (membersOf kind value symbol items) := by
  cases symbol <;> cases items <;>
    simp_all [membersOf, symbolMembers, childMembers, Json.IsDistinct, Json.HaveDistinct]

theorem haveAlike_append {members others : List (String × Json)} :
    ∀ {both : List (String × Json)}, Json.HaveAlike (members ++ others) both →
      ∃ members' others', both = members' ++ others' ∧ Json.HaveAlike members members' ∧
        Json.HaveAlike others others' := by
  induction members with
  | nil => exact fun {both} h => ⟨[], both, rfl, rfl, h⟩
  | cons member members ih =>
    rintro _ ⟨value', rest, rfl, hvalue, hrest⟩
    obtain ⟨members', others', rfl, hmembers, hothers⟩ := ih hrest
    exact ⟨_ :: members', others', rfl, ⟨value', members', rfl, hvalue, hmembers⟩, hothers⟩

/-- Members like those of a snapshot are such members, of values alike for its children. -/
theorem exists_items_of_haveAlike {members : List (String × Json)}
    (h : Json.HaveAlike (membersOf kind value symbol items) members) :
    ∃ items', Json.AreAlike items items' ∧ members = membersOf kind value symbol items' := by
  obtain ⟨_, _, rfl, rfl, _, rest, rfl, rfl, hrest⟩ := h
  obtain ⟨named, below, rfl, hnamed, hbelow⟩ := haveAlike_append hrest
  have hsymbol : named = symbolMembers symbol := by
    cases symbol with
    | none => exact hnamed
    | some name =>
      obtain ⟨_, _, rfl, rfl, rfl⟩ := hnamed
      rfl
  subst hsymbol
  cases items with
  | nil =>
    subst hbelow
    exact ⟨[], rfl, rfl⟩
  | cons item items =>
    obtain ⟨_, _, rfl, ⟨items', rfl, hitems⟩, rfl⟩ := hbelow
    refine ⟨items', hitems, ?_⟩
    obtain ⟨item', rest, rfl, -, -⟩ := hitems
    rfl

end

theorem toJsons_eq_map (children : List Snapshot) : toJsons children = children.map toJson := by
  induction children with
  | nil => rfl
  | cons s rest ih => rw [toJsons, ih, List.map_cons]

theorem toJson_eq (s : Snapshot) :
    s.toJson = .object (membersOf s.kind s.value s.symbol (s.children.map toJson)) := by
  obtain ⟨kind, value, symbol, children⟩ := s
  cases symbol <;> cases children <;>
    simp [toJson, membersOf, symbolMembers, childMembers, toJsons_eq_map, Snapshot.kind,
      Snapshot.value, Snapshot.symbol, Snapshot.children]

/-! ### Numbers and names -/

mutual

/-- A snapshot is written with whole numbers of 64 bits only. -/
theorem isExact_toJson : ∀ s : Snapshot, s.toJson.IsExact
  | mk kind value symbol children => by
    rw [toJson_eq]
    exact haveExact_membersOf (areExact_map_toJson children)

theorem areExact_map_toJson : ∀ children : List Snapshot, Json.AreExact (children.map toJson)
  | [] => trivial
  | s :: rest => ⟨isExact_toJson s, areExact_map_toJson rest⟩

end

mutual

/-- A snapshot is written without repeated members. -/
theorem isDistinct_toJson : ∀ s : Snapshot, s.toJson.IsDistinct
  | mk kind value symbol children => by
    rw [toJson_eq]
    exact ⟨nodup_membersOf, haveDistinct_membersOf (areDistinct_map_toJson children)⟩

theorem areDistinct_map_toJson : ∀ children : List Snapshot,
    Json.AreDistinct (children.map toJson)
  | [] => trivial
  | s :: rest => ⟨isDistinct_toJson s, areDistinct_map_toJson rest⟩

end

/-! ### Levels -/

mutual

/-- The number of levels of the tree. -/
def depth : Snapshot → Nat
  | mk _ _ _ children => 1 + depths children

/-- The most levels of a row of trees. -/
def depths : List Snapshot → Nat
  | [] => 0
  | s :: rest => max s.depth (depths rest)

end

theorem one_le_depth (s : Snapshot) : 1 ≤ s.depth := by
  cases s with
  | mk kind value symbol children => exact Nat.le_add_right 1 _

mutual

/-- Every level is written as an object, in an array if it is not the first. -/
theorem nesting_toJson : ∀ s : Snapshot, s.toJson.nesting = 2 * s.depth - 1
  | mk kind value symbol [] => by
    rw [toJson_eq, Json.nesting, memberNestings_membersOf]
    rfl
  | mk kind value symbol (first :: rest) => by
    have hchildren := nestings_map_toJson (first :: rest)
    have hfirst := first.one_le_depth
    rw [toJson_eq, Json.nesting, memberNestings_membersOf, if_neg nofun, Snapshot.children,
      hchildren, depth, depths]
    omega

theorem nestings_map_toJson : ∀ children : List Snapshot,
    Json.nestings (children.map toJson) = 2 * depths children - 1
  | [] => rfl
  | s :: rest => by
    rw [List.map_cons, Json.nestings, nesting_toJson s, nestings_map_toJson rest, depths]
    omega

end

/-! ### Reading -/

theorem readValue_toInt (value : Int64) : readValue (.int value.toInt) = .ok value := by
  rw [readValue, Integer.ofInt?_eq_some_iff.2 rfl]

theorem readKind_name (kind : Kind) : readKind (.string kind.name) = .ok kind := by
  rw [readKind, readKindName, Kind.ofName?_name]

/-- The members of a snapshot are read one by one; none is read for those left out. -/
theorem readMembers_membersOf (kind : Kind) (value : Int64) (symbol : Option String)
    (items : List Json) :
    readMembers (membersOf kind value symbol items) =
      { kind := some (.ok kind)
        value := some (.ok value)
        symbol := symbol.map fun name => .ok (some name)
        children := if items.isEmpty then none else some (ofJsons items) } := by
  rw [← readKind_name kind, ← readValue_toInt value]
  cases symbol <;> cases items <;> rfl

namespace Members

/-- What was read, with what is read for a member in front, if it is one of a snapshot. -/
def record (m : Members) (name : String) (j : Json) : Members :=
  if name = "node_type" then { m with kind := m.kind.or (some (readKind j)) }
  else if name = "value" then { m with value := m.value.or (some (readValue j)) }
  else if name = "symbol" then { m with symbol := m.symbol.or (some (readSymbol j)) }
  else if name = "children" then { m with children := m.children.or (some (readChildren j)) }
  else m

theorem record_cases (name : String) :
    (name = "node_type" ∨ name = "value" ∨ name = "symbol" ∨ name = "children") ∨
      ∀ (m : Members) (j : Json), m.record name j = m := by
  by_cases h : name = "node_type" ∨ name = "value" ∨ name = "symbol" ∨ name = "children"
  · exact .inl h
  · simp only [not_or] at h
    obtain ⟨hkind, hvalue, hsymbol, hchildren⟩ := h
    refine .inr fun m j => ?_
    rw [record, if_neg hkind, if_neg hvalue, if_neg hsymbol, if_neg hchildren]

/-- Members with different names are recorded in different places, if at all. -/
theorem record_comm (m : Members) {name name' : String} (j j' : Json) (hne : name ≠ name') :
    (m.record name j).record name' j' = (m.record name' j').record name j := by
  rcases record_cases name with h | h
  · rcases record_cases name' with h' | h'
    · rcases h with rfl | rfl | rfl | rfl <;> rcases h' with rfl | rfl | rfl | rfl <;>
        first
        | rfl
        | exact absurd rfl hne
    · rw [h', h']
  · rw [h, h]

end Members

theorem readMembers_cons (name : String) (j : Json) (rest : List (String × Json)) :
    readMembers ((name, j) :: rest) = (readMembers rest).record name j := by
  rw [readMembers]
  rfl

/-- The order of members with names of their own does not matter. -/
theorem readMembers_perm {members members' : List (String × Json)} (h : members.Perm members')
    (hnames : (members.map (·.1)).Nodup) : readMembers members = readMembers members' := by
  induction h with
  | nil => rfl
  | cons member _ ih =>
    obtain ⟨name, j⟩ := member
    rw [readMembers_cons, readMembers_cons, ih (List.nodup_cons.1 hnames).2]
  | swap first second rest =>
    obtain ⟨name, j⟩ := first
    obtain ⟨name', j'⟩ := second
    have hne : name ≠ name' := by
      rintro rfl
      exact (List.nodup_cons.1 hnames).1 List.mem_cons_self
    simp only [readMembers_cons]
    exact Members.record_comm _ j j' hne
  | trans h _ ih ih' => exact (ih hnames).trans (ih' ((h.map _).nodup_iff.1 hnames))

/-- Kind and value are needed; in the place of a name or of children that are missing,
    there is none. -/
theorem Members.assemble_eq_ok {m : Members} {kind : Kind} {value : Int64}
    {symbol : Option String} {children : List Snapshot} (hkind : m.kind = some (.ok kind))
    (hvalue : m.value = some (.ok value)) (hsymbol : m.symbol.getD (.ok none) = .ok symbol)
    (hchildren : m.children.getD (.ok []) = .ok children) :
    m.assemble = .ok (.mk kind value symbol children) := by
  rw [Members.assemble, hchildren, hkind, hsymbol, hvalue]
  rfl

mutual

/-- A snapshot is read back from its JSON value, and from every value like it. -/
theorem ofJson_of_alike : ∀ (s : Snapshot) {j : Json}, s.toJson.Alike j → ofJson j = .ok s
  | mk kind value symbol children, j, h => by
    rw [toJson_eq] at h
    obtain ⟨_, members, rfl, halike, hperm⟩ := h
    obtain ⟨items, hitems, rfl⟩ := exists_items_of_haveAlike halike
    have hsymbol : (symbol.map fun name => Except.ok (some name)).getD (.ok none) =
        (Except.ok symbol : Except SnapshotError (Option String)) := by
      cases symbol <;> rfl
    have hread := ofJsons_of_areAlike children hitems
    have hchildren : (if items.isEmpty then none else some (ofJsons items)).getD (.ok []) =
        .ok children := by
      split
      · -- What is read for missing children is what was left out.
        next hempty => rwa [List.isEmpty_iff.1 hempty, ofJsons] at hread
      · exact hread
    -- The reader may have put the members in another order, which the decoder does not see.
    rw [ofJson, ← readMembers_perm hperm nodup_membersOf, readMembers_membersOf]
    exact Members.assemble_eq_ok rfl rfl hsymbol hchildren

/-- A row of snapshots is read back from values like those of its members. -/
theorem ofJsons_of_areAlike : ∀ (children : List Snapshot) {items : List Json},
    Json.AreAlike (children.map toJson) items → ofJsons items = .ok children
  | [], _, h => by
    obtain rfl := h
    rfl
  | s :: rest, _, h => by
    obtain ⟨item, items, rfl, hitem, hitems⟩ := h
    rw [ofJsons, ofJson_of_alike s hitem, ofJsons_of_areAlike rest hitems]
    rfl

end

/-- A tree with so many levels under its root, where a name in quotes is at the bottom. -/
def tower : Nat → Snapshot
  | 0 => mk .symbol 0 (some "\"\n") []
  | n + 1 => mk .subtract (-1) none [tower n, mk .number (-9223372036854775808) none []]

end Snapshot

end Arbor
