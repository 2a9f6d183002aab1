import Libjaypea.HiddenColumns
import Libjaypea.SoftDeletion

/-!
# The rows that a call changes

`Update` and `Delete` write to the rows with the given id and leave all others
as they are.  What `Where` shows of a row is what the row has.
-/

namespace Libjaypea

namespace Sql

/-- The rows stay in their places, and only rows of one kind are changed. -/
def ChangesOnly (kind : Row → Prop) (rows after : List Row) : Prop :=
  List.Forall₂ (fun row later => later.identity = row.identity ∧ (later ≠ row → kind row))
    rows after

variable {server : Server} {kind : Row → Prop} {rows after : List Row}

theorem ChangesOnly.refl (kind : Row → Prop) (rows : List Row) : ChangesOnly kind rows rows :=
  List.forall₂_same.mpr fun _ _ => ⟨rfl, fun changed => absurd rfl changed⟩

theorem changesOnly_map {write : Row → Row}
    (identity : ∀ row, (write row).identity = row.identity)
    (only : ∀ row ∈ rows, write row ≠ row → kind row) :
    ChangesOnly kind rows (rows.map write) := by
  rw [ChangesOnly, List.forall₂_map_right_iff, List.forall₂_same]
  exact fun row member => ⟨identity row, only row member⟩

/-- The literal is read as the id of the row. -/
def HasId (server : Server) (id : Bytes) (row : Row) : Prop :=
  ∃ value, server.cast (bytes "id") id = some value ∧ row.cell (bytes "id") = some value

theorem holds_id_iff {id : Bytes} {row : Row} {others : List Atom} :
    Condition.holds server [.equals (bytes "id") id :: others] row = true ↔
      HasId server id row ∧ others.all (Atom.holds server row) = true := by
  simp only [Condition.holds, List.any_cons, List.any_nil, Bool.or_false, List.all_cons,
    Bool.and_eq_true, Atom.holds, beq_iff_eq, HasId]
  apply and_congr_left
  intro _
  constructor
  · rintro ⟨present, same⟩
    obtain ⟨value, has⟩ := Option.isSome_iff_exists.mp present
    exact ⟨value, same.symm.trans has, has⟩
  · rintro ⟨value, reads, has⟩
    rw [has, reads]
    exact ⟨rfl, rfl⟩

/-- The rows with the id are written, and the constraints hold afterwards. -/
structure Writes (server : Server) (id : Bytes) (cells : List (Bytes × Option Bytes))
    (rows after : List Row) : Prop where
  written : after = rows.map fun row =>
    if Condition.holds server [[.equals (bytes "id") id]] row then row.write cells else row
  accepted : server.accepts after = true

variable {id : Bytes} {cells : List (Bytes × Option Bytes)}

theorem Writes.changesOnly (writes : Writes server id cells rows after)
    (only : ∀ row ∈ rows, HasId server id row → kind row) : ChangesOnly kind rows after := by
  rw [writes.written]
  apply changesOnly_map
  · intro row
    split <;> rfl
  · intro row member changed
    by_cases holds : Condition.holds server [[.equals (bytes "id") id]] row = true
    · exact only row member (holds_id_iff.mp holds).1
    · rw [if_neg holds] at changed
      exact absurd rfl changed

/-- A column that gets no other value in the written rows is left as it is. -/
theorem Writes.column (writes : Writes server id cells rows after) {column : Bytes}
    (kept : ∀ row ∈ rows, HasId server id row → ∀ cell ∈ KeyedList.get? cells column,
      cell = row.cell column) :
    after.map (Row.cell · column) = rows.map (Row.cell · column) := by
  rw [writes.written, List.map_map]
  apply List.map_congr_left
  intro row member
  by_cases holds : Condition.holds server [[.equals (bytes "id") id]] row = true
  · simp only [Function.comp_apply, if_pos holds, Row.write]
    cases found : KeyedList.get? cells column with
    | none => rfl
    | some cell => exact kept row member (holds_id_iff.mp holds).1 cell found
  · simp only [Function.comp_apply, if_neg holds]

/-- What is written comes from an assignment. -/
theorem exists_assignment {assignments : List (Bytes × Operand)}
    (assigns : assign server assignments = some cells) {column : Bytes} {cell : Option Bytes}
    (found : KeyedList.get? cells column = some cell) :
    (assignments.map Prod.fst).Nodup ∧
      ∃ operand, (column, operand) ∈ assignments ∧ operand.value server column = some cell := by
  unfold assign at assigns
  split at assigns
  · rename_i proper
    obtain ⟨assignment, present, made⟩ := exists_of_mapM assigns (KeyedList.mem_of_get? found)
    obtain ⟨value, makes, same⟩ := Option.map_eq_some_iff.mp made
    cases same
    exact ⟨proper.2, assignment.2, present, makes⟩
  · cases assigns

end Sql

open Sql

namespace PgSqlModel

variable {model : PgSqlModel} {server : Server} {rows : List Row}

section Statements

/-- The assignments of `Update`. -/
def written (model : PgSqlModel) (values : List (Bytes × JsonObject)) : List (Bytes × Operand) :=
  (if model.hasColumn (bytes "modified") then [(bytes "modified", .constant (bytes "now"))]
    else []) ++ values.map fun entry => (entry.1, .literal entry.2.stringValue)

theorem pieces_listed {texts : List (List Token)} (more : texts ≠ [])
    (each : ∀ text ∈ texts, comma ∉ text) : pieces comma (listed texts) = texts := by
  rw [listed, sql_comma]
  induction texts with
  | nil => exact absurd rfl more
  | cons text texts ih =>
      obtain ⟨head, tail⟩ := List.forall_mem_cons.mp each
      cases texts with
      | nil => simpa using pieces_of_notMem head
      | cons next texts =>
          rw [List.intercalate_cons_cons, List.append_assoc, List.singleton_append,
            pieces_append head, ih (by simp) tail]

theorem listed_cons {text : List Token} {texts : List (List Token)} (more : texts ≠ []) :
    listed (text :: texts) = text ++ comma :: listed texts := by
  cases texts with
  | nil => exact absurd rfl more
  | cons next texts =>
      rw [listed, listed, sql_comma, List.intercalate_cons_cons, List.append_assoc,
        List.singleton_append]

/-- The text of an assignment. -/
def entryText (entry : Bytes × JsonObject) : List Token :=
  lex entry.1 ++ sql " = " ++ quote entry.2.stringValue

theorem entryText_eq {entry : Bytes × JsonObject} (identifier : Identifier entry.1) :
    entryText entry = [.name entry.1, .symbol 61, .literal entry.2.stringValue] := by
  rw [entryText, lex_identifier identifier, sql_equals]
  rfl

/-- The assignments that `Update` lists. -/
def clauses (model : PgSqlModel) (values : List (Bytes × JsonObject)) : List (List Token) :=
  (if model.hasColumn (bytes "modified") then
    [[.name (bytes "modified"), .symbol 61, .name (bytes "now"), .symbol 40, .symbol 41]]
  else []) ++ values.map entryText

theorem mapM_clauses (declared : model.Declared) {values : List (Bytes × JsonObject)}
    (known : model.Known values) :
    (model.clauses values).mapM parseAssignment = some (model.written values) := by
  have entries : (values.map entryText).mapM parseAssignment =
      some (values.map fun entry => (entry.1, .literal entry.2.stringValue)) := by
    induction values with
    | nil => rfl
    | cons entry values ih =>
        obtain ⟨head, tail⟩ := List.forall_mem_cons.mp known
        rw [List.map_cons, List.mapM_cons, entryText_eq (declared.identifier head), ih tail]
        rfl
  unfold clauses written
  cases model.hasColumn (bytes "modified") with
  | true => rw [if_pos rfl, if_pos rfl, List.singleton_append, List.mapM_cons, entries]; rfl
  | false => exact entries

theorem comma_notMem_clauses (declared : model.Declared) {values : List (Bytes × JsonObject)}
    (known : model.Known values) : ∀ clause ∈ model.clauses values, comma ∉ clause := by
  have entries : ∀ entry ∈ values, comma ∉ entryText entry := by
    intro entry member
    rw [entryText_eq (declared.identifier (known entry member))]
    simp [comma, show ch ',' = 44 from by decide]
  intro clause member
  rcases List.mem_append.mp member with first | later
  · split at first
    · rw [List.mem_singleton.mp first]
      decide
    · cases first
  · obtain ⟨entry, present, rfl⟩ := List.mem_map.mp later
    exact entries entry present

/-- The text of the clause between `SET` and `WHERE`. -/
def setText (model : PgSqlModel) (values : List (Bytes × JsonObject)) : List Token :=
  (if model.hasColumn (bytes "modified") then sql "modified = now(), " else []) ++
    listed (values.map entryText)

theorem setText_eq (model : PgSqlModel) {values : List (Bytes × JsonObject)} (more : values ≠ []) :
    model.setText values = listed (model.clauses values) := by
  unfold setText clauses
  cases model.hasColumn (bytes "modified") with
  | true =>
      rw [if_pos rfl, if_pos rfl, List.singleton_append, listed_cons (by simpa using more),
        sql_modified]
      rfl
  | false => rfl

theorem where_notMem_setText (declared : model.Declared) {values : List (Bytes × JsonObject)}
    (known : model.Known values) : Token.keyword .where_ ∉ model.setText values := by
  have entries : Token.keyword .where_ ∉ listed (values.map entryText) := by
    induction values with
    | nil => simp [listed]
    | cons entry values ih =>
        obtain ⟨head, tail⟩ := List.forall_mem_cons.mp known
        have front : Token.keyword .where_ ∉ entryText entry := by
          rw [entryText_eq (declared.identifier head)]
          simp
        cases values with
        | nil => simpa [listed] using front
        | cons next values =>
            have rest := ih tail
            rw [List.map_cons, listed_cons (by simp)]
            simp [front, rest, comma, -List.map_cons]
  unfold setText
  rw [List.mem_append, not_or]
  refine ⟨?_, entries⟩
  split <;> decide

/-- Without values the comma behind `now()` is followed by nothing. -/
theorem mapM_setText (declared : model.Declared) {values : List (Bytes × JsonObject)}
    (known : model.Known values) :
    (pieces comma (model.setText values)).mapM parseAssignment =
      if values = [] then none else some (model.written values) := by
  by_cases empty : values = []
  · subst empty
    rw [if_pos rfl]
    unfold setText
    cases model.hasColumn (bytes "modified") with
    | true => decide
    | false => rfl
  · have more : model.clauses values ≠ [] := by simp [clauses, empty]
    rw [if_neg empty, setText_eq model empty,
      pieces_listed more (comma_notMem_clauses declared known), mapM_clauses declared known]

/-- The statement of `Update`. -/
theorem parse_updateText (declared : model.Declared) {values : List (Bytes × JsonObject)}
    (known : model.Known values) (id : Bytes) :
    parse (model.updateText id values) =
      if values = [] then none
      else some (.update model.table (model.written values) [[.equals (bytes "id") id]]
        (some (bytes "id"))) := by
  have parts : model.updateText id values = sql "UPDATE " ++ lex model.table ++ sql " SET " ++
      model.setText values ++ sql " WHERE id = " ++ quote id ++ sql " RETURNING id;" := by
    rw [setText, ← List.append_assoc]
    rfl
  have text : model.updateText id values = (.keyword .update :: .name model.table ::
      .keyword .set :: (model.setText values ++ .keyword .where_ ::
        [.name (bytes "id"), .symbol 61, .literal id, .keyword .returning, .name (bytes "id")])) ++
      [semicolon] := by
    simp only [parts, quote, declared.lex_table, sql_update, sql_set, sql_whereId,
      sql_returningEnd, List.append_assoc, List.cons_append, List.nil_append]
  rw [text, parse, withoutSemicolon, List.getLast?_concat, if_pos rfl, List.dropLast_concat]
  simp only [parseUpdate]
  rw [splitAt_of_notMem (where_notMem_setText declared known), Option.bind_some,
    mapM_setText declared known]
  by_cases empty : values = []
  · simp [empty]
  · simp [empty, parseReturning, splitAt, parseCondition, pieces, parseAtom]

end Statements

section Calls

/-- An update of the rows with an id changes nothing or writes them. -/
theorem change_cases {tokens : List Token} {table id : Bytes}
    {assignments : List (Bytes × Operand)} {returning : Option Bytes}
    (parses : parse tokens =
      some (.update table assignments [[.equals (bytes "id") id]] returning)) :
    (change server rows tokens).2 = rows ∨
      ∃ cells, assign server assignments = some cells ∧
        Writes server id cells rows (change server rows tokens).2 := by
  unfold change
  cases executes : Sql.exec server rows tokens with
  | none => exact .inl rfl
  | some result =>
      obtain ⟨records, after⟩ := result
      right
      rw [exec_eq_some parses, execute] at executes
      obtain ⟨cells, assigns, -, same⟩ := update_eq_some executes
      exact ⟨cells, assigns, same, update_accepts executes⟩

theorem update_cases (declared : model.Declared) (id : Bytes)
    (values : List (Bytes × JsonObject)) :
    (model.update server rows id values).2 = rows ∨
      ∃ cells, assign server (model.written values) = some cells ∧
        Writes server id cells rows (model.update server rows id values).2 := by
  unfold PgSqlModel.update
  split
  · exact .inl rfl
  · rename_i unknown
    have known := known_iff.mp (Bool.eq_false_iff.mpr unknown)
    have parses := parse_updateText declared known id
    by_cases empty : values = []
    · left
      rw [if_pos empty] at parses
      rw [change, Sql.exec, parses]
      rfl
    · rw [if_neg empty] at parses
      exact change_cases parses

theorem delete_cases (declared : model.Declared) (id : Bytes) :
    (model.delete server rows id).2 = rows ∨
      ∃ cells, assign server [(bytes "deleted", .constant (bytes "now"))] = some cells ∧
        Writes server id cells rows (model.delete server rows id).2 :=
  change_cases (parse_deleteText declared id)

/-- What `Update` writes to the id is the literal that the values give for it. -/
theorem exists_given {values : List (Bytes × JsonObject)} {cells : List (Bytes × Option Bytes)}
    (assigns : assign server (model.written values) = some cells) {cell : Option Bytes}
    (found : KeyedList.get? cells (bytes "id") = some cell) :
    ∃ given value, KeyedList.get? values (bytes "id") = some given ∧
      server.cast (bytes "id") given.stringValue = some value ∧ cell = some value := by
  obtain ⟨distinct, operand, member, makes⟩ := exists_assignment assigns found
  rcases List.mem_append.mp member with first | later
  · split at first
    · have other : bytes "id" ≠ bytes "modified" := by decide
      exact absurd (congrArg Prod.fst (List.mem_singleton.mp first)) other
    · cases first
  · obtain ⟨⟨key, given⟩, present, same⟩ := List.mem_map.mp later
    cases same
    obtain ⟨value, reads, same⟩ := Option.map_eq_some_iff.mp makes
    have keys : (KeyedList.keys values).Nodup := by
      rw [written, List.map_append, List.map_map] at distinct
      exact (List.nodup_append'.mp distinct).2.1
    exact ⟨given, value, KeyedList.get?_of_mem keys present, reads, same.symm⟩

end Calls

section Shown

/-- A member of the object that is made of a row is a cell of the row. -/
theorem field_of_rowMembers {record : Record} {cols : List Column} {json out : JsonObject}
    (shows : rowMembers record cols json = some out) {name : Bytes} {member : JsonObject}
    (found : KeyedList.get? out.objectValues name = some member) :
    KeyedList.get? json.objectValues name = some member ∨
      ∃ value, field record name = some (some value) ∧ member = .ofString value := by
  induction cols generalizing json with
  | nil =>
      cases shows
      exact .inl found
  | cons column cols ih =>
      unfold rowMembers at shows
      split at shows
      · exact ih shows
      · split at shows
        · cases shows
        · exact ih shows
        · rename_i value cell
          -- The induction is on the columns: a later one may write the member again.
          rcases ih shows with before | shown
          · rw [JsonObject.setMember, KeyedList.get?_set] at before
            split at before
            · rename_i same
              cases before
              subst same
              exact .inr ⟨value, cell, rfl⟩
            · exact .inl before
          · exact .inr shown

/-- A selected record has the cells of its row; only the location is computed. -/
theorem cell_of_record {row : Row} {cols : List Column} {name value : Bytes}
    (plain : name ≠ bytes "location")
    (shows : field (row.record server (some (cols.map item))) name = some (some value)) :
    row.cell name = some value := by
  have member := KeyedList.mem_of_get? shows
  simp only [Row.record, List.map_map] at member
  obtain ⟨column, -, same⟩ := List.mem_map.mp member
  rw [Function.comp_apply, item] at same
  split at same
  · exact absurd (congrArg Prod.fst same).symm plain
  · obtain ⟨rfl, cell⟩ := Prod.mk.inj same
    exact cell

/-- The first object of a result is made of its first record. -/
theorem exists_record_of_head {records : List Record} {json object : JsonObject}
    (converts : model.resultToJson records = some json)
    (first : json.arrayValues.head? = some object) :
    ∃ record ∈ records, model.rowToJson record = some object := by
  obtain ⟨objects, makes, rfl⟩ := Option.map_eq_some_iff.mp converts
  exact exists_of_mapM makes (List.mem_of_mem_head? first)

/-- The texts in the first object that `Where` answers are those of one of the
selected rows. -/
theorem exists_row_of_where (declared : model.Declared) {key value : Bytes} {object : JsonObject}
    (first : (model.where_ server rows key value).arrayValues.head? = some object) {name : Bytes}
    (plain : name ≠ bytes "location") {text : Bytes} (shown : object.getStr name = some text) :
    ∃ row ∈ rows, row.cell name = some text ∧
      Condition.holds server [.equals key value :: model.notDeleted] row = true := by
  by_cases has : model.hasColumn key = true
  · rw [where_eq declared has] at first
    split at first
    · cases first
    · cases answers : (select server rows (some ((PgSqlModel.shown model.cols).map item))
          model.table [.equals key value :: model.notDeleted] model.byCreated).bind
            model.resultToJson with
      | none =>
          rw [answers] at first
          cases first
      | some json =>
          rw [answers] at first
          obtain ⟨records, selects, converts⟩ := Option.bind_eq_some_iff.mp answers
          obtain ⟨record, member, shows⟩ := exists_record_of_head converts first
          obtain ⟨row, present, rfl, holds⟩ := exists_row_of_select selects member
          obtain ⟨child, found, rfl⟩ := Option.map_eq_some_iff.mp shown
          rcases field_of_rowMembers shows found with before | ⟨cell, has, rfl⟩
          · cases before
          · exact ⟨row, present, cell_of_record plain has, holds⟩
  · have unknown : (!model.hasColumn key) = true := by simpa using has
    rw [where_, if_pos unknown] at first
    cases first

end Shown

end PgSqlModel

end Libjaypea
