import Libjaypea.Sql

/-!
# What statements do to the rows

A statement never takes a row away, and one that does not write `NULL` leaves
the cells that have a value with a value.
-/

namespace Libjaypea

namespace Sql

section Tokens

theorem exists_of_mapM {α β : Type*} {make : α → Option β} {list : List α} {made : List β}
    (makes : list.mapM make = some made) {value : β} (member : value ∈ made) :
    ∃ source ∈ list, make source = some value := by
  induction list generalizing made with
  | nil =>
      obtain rfl : made = [] := by simpa using makes.symm
      cases member
  | cons first rest ih =>
      simp only [List.mapM_cons, Option.bind_eq_bind, Option.bind_eq_some_iff] at makes
      obtain ⟨head, makesHead, tail, makesTail, same⟩ := makes
      cases same
      rcases List.mem_cons.mp member with rfl | later
      · exact ⟨first, List.mem_cons_self, makesHead⟩
      · obtain ⟨source, present, makesValue⟩ := ih makesTail later
        exact ⟨source, List.mem_cons_of_mem _ present, makesValue⟩

theorem splitAt_eq {keyword : Keyword} {tokens before after : List Token}
    (found : splitAt keyword tokens = some (before, after)) :
    tokens = before ++ .keyword keyword :: after := by
  induction tokens generalizing before with
  | nil => cases found
  | cons token rest ih =>
      unfold splitAt at found
      split at found
      · cases found
        simp [*]
      · obtain ⟨⟨front, back⟩, later, same⟩ := Option.map_eq_some_iff.mp found
        cases same
        rw [ih later, List.cons_append]

theorem mem_pieces {separator token : Token} {tokens piece : List Token}
    (found : piece ∈ pieces separator tokens) (member : token ∈ piece) : token ∈ tokens := by
  induction tokens generalizing piece with
  | nil =>
      obtain rfl : piece = [] := by simpa [pieces] using found
      cases member
  | cons first rest ih =>
      unfold pieces at found
      split at found
      · rcases List.mem_cons.mp found with rfl | later
        · cases member
        · exact List.mem_cons_of_mem _ (ih later member)
      · split at found
        · obtain rfl : piece = [first] := by simpa using found
          simpa using .inl (by simpa using member)
        · rename_i front others parts
          rcases List.mem_cons.mp found with rfl | later
          · rcases List.mem_cons.mp member with rfl | inside
            · exact List.mem_cons_self
            · exact List.mem_cons_of_mem _ (ih (by rw [parts]; exact List.mem_cons_self) inside)
          · refine List.mem_cons_of_mem _ (ih ?_ member)
            rw [parts]
            exact List.mem_cons_of_mem _ later

/-- The text does not have the word `NULL`. -/
def WithoutNull (tokens : List Token) : Prop :=
  Token.keyword .null ∉ tokens

instance (tokens : List Token) : Decidable (WithoutNull tokens) :=
  inferInstanceAs (Decidable (_ ∉ tokens))

theorem ne_null_of_parseOperand {tokens : List Token} {operand : Operand}
    (absent : WithoutNull tokens) (parses : parseOperand tokens = some operand) :
    operand ≠ .null := by
  rintro rfl
  unfold parseOperand at parses
  split at parses
  · exact absent List.mem_cons_self
  all_goals cases parses

theorem ne_null_of_parseAssignment {tokens : List Token} {assignment : Bytes × Operand}
    (absent : WithoutNull tokens) (parses : parseAssignment tokens = some assignment) :
    assignment.2 ≠ .null := by
  unfold parseAssignment at parses
  split at parses
  · obtain ⟨operand, parsed, rfl⟩ := Option.map_eq_some_iff.mp parses
    refine ne_null_of_parseOperand (fun member => absent ?_) parsed
    exact List.mem_cons_of_mem _ (List.mem_cons_of_mem _ member)
  · cases parses

theorem parseSelect_ne (tokens : List Token) {table : Bytes}
    {assignments : List (Bytes × Operand)} {condition : Condition} {returning : Option Bytes} :
    parseSelect tokens ≠ some (.update table assignments condition returning) := by
  intro parses
  unfold parseSelect at parses
  obtain ⟨parts, -, parses⟩ := Option.bind_eq_some_iff.mp parses
  obtain ⟨items, -, parses⟩ := Option.bind_eq_some_iff.mp parses
  split at parses <;> simp at parses

theorem parseInsert_ne (tokens : List Token) {table : Bytes}
    {assignments : List (Bytes × Operand)} {condition : Condition} {returning : Option Bytes} :
    parseInsert tokens ≠ some (.update table assignments condition returning) := by
  intro parses
  unfold parseInsert at parses
  split at parses
  · simp only [Option.bind_eq_some_iff, Option.map_eq_some_iff] at parses
    obtain ⟨_, -, _, -, _, -, _, -, _, -, _, -, same⟩ := parses
    cases same
  · cases parses

/-- The assignments of an update are parsed from pieces of its text. -/
theorem mem_parseUpdate {tokens : List Token} {table : Bytes}
    {assignments : List (Bytes × Operand)} {condition : Condition} {returning : Option Bytes}
    (parses : parseUpdate tokens = some (.update table assignments condition returning))
    {assignment : Bytes × Operand} (member : assignment ∈ assignments) :
    ∃ piece, (∀ token ∈ piece, token ∈ tokens) ∧ parseAssignment piece = some assignment := by
  unfold parseUpdate at parses
  split at parses
  · simp only [Option.bind_eq_some_iff, Option.map_eq_some_iff] at parses
    obtain ⟨⟨before, after⟩, split, parsed, makes, _, -, _, -, same⟩ := parses
    cases same
    obtain ⟨piece, part, parsed⟩ := exists_of_mapM makes member
    refine ⟨piece, fun token inside => ?_, parsed⟩
    have found := mem_pieces part inside
    rw [splitAt_eq split]
    simp [found]
  · cases parses

/-- The values that an update writes are not `NULL` when its text has no `NULL`. -/
theorem ne_null_of_parse {tokens : List Token} (absent : WithoutNull tokens) {table : Bytes}
    {assignments : List (Bytes × Operand)} {condition : Condition} {returning : Option Bytes}
    (parses : parse tokens = some (.update table assignments condition returning)) :
    ∀ assignment ∈ assignments, assignment.2 ≠ .null := by
  have inside : ∀ {token : Token}, token ∈ withoutSemicolon tokens → token ∈ tokens := by
    intro token member
    unfold withoutSemicolon at member
    split at member
    · exact List.dropLast_subset _ member
    · exact member
  unfold parse at parses
  split at parses
  · exact absurd parses (parseSelect_ne _)
  · rename_i update
    intro assignment member
    obtain ⟨piece, part, parsed⟩ := mem_parseUpdate parses member
    refine ne_null_of_parseAssignment (fun null => absent (inside ?_)) parsed
    rw [update]
    exact List.mem_cons_of_mem _ (part _ null)
  · exact absurd parses (parseInsert_ne _)
  · cases parses

end Tokens

section Rows

variable {server : Server} {rows after : List Row} {records : List Record}

/-- Rows stay, with a value where they had one, and at most one is new. -/
structure Keeps (column : Bytes) (rows after : List Row) : Prop where
  identities : after.map Row.identity = rows.map Row.identity ∨
    after.map Row.identity = rows.map Row.identity ++ [newIdentity rows]
  origin : ∀ later ∈ after,
    (∃ row ∈ rows, row.identity = later.identity ∧
      ((row.cell column).isSome → (later.cell column).isSome)) ∨
    later.identity = newIdentity rows

theorem Keeps.refl (column : Bytes) (rows : List Row) : Keeps column rows rows :=
  ⟨.inl rfl, fun later member => .inl ⟨later, member, rfl, id⟩⟩

theorem newIdentity_notMem (rows : List Row) : newIdentity rows ∉ rows.map Row.identity := by
  intro member
  obtain ⟨row, present, same⟩ := List.mem_map.mp member
  have below := lt_newIdentity present
  omega

theorem Keeps.nodup {column : Bytes} (keeps : Keeps column rows after)
    (distinct : (rows.map Row.identity).Nodup) : (after.map Row.identity).Nodup := by
  rcases keeps.identities with same | added
  · rwa [same]
  · rw [added, List.nodup_append']
    refine ⟨distinct, List.nodup_singleton _, ?_⟩
    simpa using newIdentity_notMem rows

theorem Keeps.remains {column : Bytes} (keeps : Keeps column rows after) {identity : Nat}
    (member : identity ∈ rows.map Row.identity) : identity ∈ after.map Row.identity := by
  rcases keeps.identities with same | added
  · rwa [same]
  · rw [added]
    exact List.mem_append_left _ member

theorem isSome_value {column : Bytes} {operand : Operand} (nonNull : operand ≠ .null)
    {cell : Option Bytes} (value : operand.value server column = some cell) : cell.isSome := by
  cases operand with
  | null => exact absurd rfl nonNull
  | literal text =>
      obtain ⟨_, -, rfl⟩ := Option.map_eq_some_iff.mp value
      rfl
  | constant function =>
      obtain ⟨_, -, rfl⟩ := Option.map_eq_some_iff.mp value
      rfl
  | call function text =>
      obtain ⟨_, -, rfl⟩ := Option.map_eq_some_iff.mp value
      rfl

/-- Assignments without `NULL` write values. -/
theorem isSome_assign {assignments : List (Bytes × Operand)}
    (nonNull : ∀ assignment ∈ assignments, assignment.2 ≠ .null)
    {cells : List (Bytes × Option Bytes)} (assigns : assign server assignments = some cells) :
    ∀ entry ∈ cells, entry.2.isSome := by
  intro entry member
  unfold assign at assigns
  split at assigns
  · obtain ⟨assignment, present, made⟩ := exists_of_mapM assigns member
    obtain ⟨cell, value, rfl⟩ := Option.map_eq_some_iff.mp made
    exact isSome_value (nonNull assignment present) value
  · cases assigns

theorem isSome_write {row : Row} {cells : List (Bytes × Option Bytes)}
    (values : ∀ entry ∈ cells, entry.2.isSome) {column : Bytes}
    (before : (row.cell column).isSome) : ((row.write cells).cell column).isSome := by
  change ((KeyedList.get? cells column).getD (row.cell column)).isSome
  cases found : KeyedList.get? cells column with
  | none => exact before
  | some cell => exact values _ (KeyedList.mem_of_get? found)

/-- What a successful update does. -/
theorem update_eq_some {table : Bytes} {assignments : List (Bytes × Operand)}
    {condition : Condition} {returning : Option Bytes}
    (updates : update server rows table assignments condition returning = some (records, after)) :
    ∃ cells, assign server assignments = some cells ∧
      records = (returning.elim [] fun column =>
        (rows.filter (condition.holds server)).map fun row => (row.write cells).returned column) ∧
      after = rows.map fun row => if condition.holds server row then row.write cells else row := by
  unfold update at updates
  split at updates
  · obtain ⟨cells, assigns, written⟩ := Option.bind_eq_some_iff.mp updates
    simp only [Option.ite_none_right_eq_some, Option.some.injEq, Prod.mk.injEq] at written
    exact ⟨cells, assigns, written.2.1.symm, written.2.2.symm⟩
  · cases updates

/-- The rows that an update leaves satisfy the constraints. -/
theorem update_accepts {table : Bytes} {assignments : List (Bytes × Operand)}
    {condition : Condition} {returning : Option Bytes}
    (updates : update server rows table assignments condition returning = some (records, after)) :
    server.accepts after = true := by
  unfold update at updates
  split at updates
  · obtain ⟨cells, -, written⟩ := Option.bind_eq_some_iff.mp updates
    simp only [Option.ite_none_right_eq_some, Option.some.injEq, Prod.mk.injEq] at written
    obtain ⟨accepts, -, rfl⟩ := written
    exact accepts
  · cases updates

theorem update_keeps {table : Bytes} {assignments : List (Bytes × Operand)}
    {condition : Condition} {returning : Option Bytes}
    (nonNull : ∀ assignment ∈ assignments, assignment.2 ≠ .null)
    (updates : update server rows table assignments condition returning = some (records, after))
    (column : Bytes) : Keeps column rows after := by
  obtain ⟨cells, assigns, -, rfl⟩ := update_eq_some updates
  have values := isSome_assign nonNull assigns
  constructor
  · left
    rw [List.map_map]
    apply List.map_congr_left
    intro row _
    simp only [Function.comp_apply]
    split <;> rfl
  · intro later member
    obtain ⟨row, present, rfl⟩ := List.mem_map.mp member
    left
    refine ⟨row, present, ?_, ?_⟩
    · split <;> rfl
    · split
      · exact isSome_write values
      · exact id

theorem insert_keeps {table : Bytes} {columns : List Bytes} {values : List Operand}
    {returning : Option Bytes}
    (inserts : insert server rows table columns values returning = some (records, after))
    (column : Bytes) : Keeps column rows after := by
  unfold insert at inserts
  split at inserts
  · obtain ⟨cells, -, written⟩ := Option.bind_eq_some_iff.mp inserts
    simp only [Option.ite_none_right_eq_some, Option.some.injEq, Prod.mk.injEq] at written
    obtain ⟨-, -, rfl⟩ := written
    constructor
    · right
      rw [List.map_append]
      rfl
    · intro later member
      rcases List.mem_append.mp member with old | new
      · exact .inl ⟨later, old, rfl, id⟩
      · obtain rfl := List.mem_singleton.mp new
        exact .inr rfl
  · cases inserts

/-- What a statement without the word `NULL` keeps. -/
theorem exec_keeps {tokens : List Token} (absent : WithoutNull tokens)
    (executes : exec server rows tokens = some (records, after)) (column : Bytes) :
    Keeps column rows after := by
  obtain ⟨statement, parses, executes⟩ := Option.bind_eq_some_iff.mp executes
  cases statement with
  | select items table condition descending =>
      obtain ⟨_, -, same⟩ := Option.map_eq_some_iff.mp executes
      cases same
      exact Keeps.refl column rows
  | update table assignments condition returning =>
      exact update_keeps (ne_null_of_parse absent parses) executes column
  | insert table columns values returning => exact insert_keeps executes column

/-- What an update writes to the rows that it returns. -/
theorem update_writes {table column : Bytes} {operand : Operand} {condition : Condition}
    {returning : Option Bytes} (nonNull : operand ≠ .null)
    (distinct : (rows.map Row.identity).Nodup)
    (updates : update server rows table [(column, operand)] condition returning =
      some (records, after)) :
    ∀ record ∈ records, record.identity ∈ rows.map Row.identity ∧
      ∀ later ∈ after, later.identity = record.identity → (later.cell column).isSome := by
  obtain ⟨cells, assigns, rfl, rfl⟩ := update_eq_some updates
  intro record member
  have selected : ∃ row ∈ rows, condition.holds server row = true ∧
      row.identity = record.identity := by
    cases returning with
    | none => cases member
    | some column =>
        obtain ⟨row, found, rfl⟩ := List.mem_map.mp member
        obtain ⟨present, holds⟩ := List.mem_filter.mp found
        exact ⟨row, present, holds, rfl⟩
  obtain ⟨row, present, holds, identity⟩ := selected
  refine ⟨List.mem_map.mpr ⟨row, present, identity⟩, fun later found same => ?_⟩
  obtain ⟨other, otherPresent, rfl⟩ := List.mem_map.mp found
  have equal : other = row := by
    apply List.inj_on_of_nodup_map distinct otherPresent present
    rw [identity, ← same]
    split <;> rfl
  subst equal
  obtain ⟨cell, value, rfl⟩ : ∃ cell, operand.value server column = some cell ∧
      cells = [(column, cell)] := by
    unfold assign at assigns
    split at assigns
    · simp only [List.mapM_cons, List.mapM_nil, Option.bind_eq_bind, Option.bind_eq_some_iff,
        Option.map_eq_some_iff] at assigns
      obtain ⟨_, ⟨cell, value, rfl⟩, _, same, written⟩ := assigns
      cases same
      exact ⟨cell, value, (Option.some.inj written).symm⟩
    · cases assigns
  rw [if_pos holds]
  change ((KeyedList.get? [(column, cell)] column).getD (other.cell column)).isSome
  rw [KeyedList.get?, if_pos rfl]
  exact isSome_value nonNull value

end Rows

end Sql

end Libjaypea
