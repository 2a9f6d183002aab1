import Libjaypea.PgSqlModel

/-!
# The statements of the model

What the texts that `PgSqlModel` sends are parsed to, when the table and the
columns are named by identifiers.
-/

namespace Libjaypea

open Sql

namespace PgSqlModel

/-- The table and its columns are named by identifiers. -/
structure Declared (model : PgSqlModel) : Prop where
  table : Identifier model.table
  columns : ∀ column ∈ model.cols, Identifier column.name

/-- The users of `jph2`. -/
def users : PgSqlModel where
  table := bytes "users"
  cols := [⟨bytes "id", colAuto⟩, ⟨bytes "username", 0⟩, ⟨bytes "password", colHidden⟩,
    ⟨bytes "primary_token", 0⟩, ⟨bytes "secondary_token", 0⟩, ⟨bytes "email", 0⟩,
    ⟨bytes "first_name", 0⟩, ⟨bytes "last_name", 0⟩, ⟨bytes "color", 0⟩,
    ⟨bytes "deleted", colAuto ||| colHidden⟩, ⟨bytes "modified", colAuto⟩,
    ⟨bytes "created", colAuto⟩]

theorem users_declared : users.Declared :=
  ⟨by decide +kernel, by decide +kernel⟩

/-- The points of interest of `jph2`. -/
def poi : PgSqlModel where
  table := bytes "poi"
  cols := [⟨bytes "id", colAuto⟩, ⟨bytes "owner_id", 0⟩, ⟨bytes "label", 0⟩,
    ⟨bytes "description", 0⟩, ⟨bytes "location", 0⟩, ⟨bytes "deleted", colAuto ||| colHidden⟩,
    ⟨bytes "modified", colAuto⟩, ⟨bytes "created", colAuto⟩]

def threads : PgSqlModel where
  table := bytes "threads"
  cols := [⟨bytes "id", colAuto⟩, ⟨bytes "owner_id", 0⟩, ⟨bytes "name", 0⟩,
    ⟨bytes "description", 0⟩, ⟨bytes "deleted", colAuto ||| colHidden⟩,
    ⟨bytes "modified", colAuto⟩, ⟨bytes "created", colAuto⟩]

def messages : PgSqlModel where
  table := bytes "messages"
  cols := [⟨bytes "id", colAuto⟩, ⟨bytes "owner_id", 0⟩, ⟨bytes "thread_id", 0⟩,
    ⟨bytes "title", 0⟩, ⟨bytes "content", 0⟩, ⟨bytes "deleted", colAuto ||| colHidden⟩,
    ⟨bytes "modified", colAuto⟩, ⟨bytes "created", colAuto⟩]

theorem poi_declared : poi.Declared :=
  ⟨by decide +kernel, by decide +kernel⟩

theorem threads_declared : threads.Declared :=
  ⟨by decide +kernel, by decide +kernel⟩

theorem messages_declared : messages.Declared :=
  ⟨by decide +kernel, by decide +kernel⟩

variable {model : PgSqlModel}

theorem Declared.lex_table (declared : model.Declared) : lex model.table = [.name model.table] :=
  lex_identifier declared.table

theorem exists_of_hasColumn {name : Bytes} (has : model.hasColumn name = true) :
    ∃ column ∈ model.cols, column.name = name := by
  simpa [hasColumn] using has

theorem hasColumn_of_mem {column : Column} (member : column ∈ model.cols) {name : Bytes}
    (named : column.name = name) : model.hasColumn name = true := by
  rw [hasColumn, List.any_eq_true]
  exact ⟨column, member, beq_iff_eq.mpr named⟩

theorem Declared.identifier (declared : model.Declared) {name : Bytes}
    (has : model.hasColumn name = true) : Identifier name := by
  obtain ⟨column, member, rfl⟩ := exists_of_hasColumn has
  exact declared.columns column member

section Pieces

theorem sql_select : sql "SELECT " = [.keyword .select] := by decide

theorem sql_selectAll : sql "SELECT * FROM " =
    [.keyword .select, .symbol (ch '*'), .keyword .from_] := by decide

theorem sql_from : sql " FROM " = [.keyword .from_] := by decide

theorem sql_where : sql " WHERE " = [.keyword .where_] := by decide

theorem sql_equals : sql " = " = [.symbol 61] := by decide

theorem sql_comma : sql ", " = [comma] := by decide

theorem sql_semicolon : sql ";" = [semicolon] := by decide

theorem sql_whereDeleted : sql " WHERE deleted IS NULL" =
    [.keyword .where_, .name (bytes "deleted"), .keyword .is_, .keyword .null] := by decide

theorem sql_andDeleted : sql " AND deleted IS NULL" =
    [.keyword .and_, .name (bytes "deleted"), .keyword .is_, .keyword .null] := by decide

theorem sql_order : sql " ORDER BY created DESC;" =
    [.keyword .order, .keyword .by_, .name (bytes "created"), .keyword .desc, semicolon] := by
  decide

theorem sql_location : sql "ST_AsGeoJSON(location) as location" =
    [.name (bytes "st_asgeojson"), .symbol 40, .name (bytes "location"), .symbol 41,
      .keyword .as_, .name (bytes "location")] := by decide

theorem sql_update : sql "UPDATE " = [.keyword .update] := by decide

theorem sql_set : sql " SET " = [.keyword .set] := by decide

theorem sql_modified : sql "modified = now(), " = [.name (bytes "modified"), .symbol 61,
    .name (bytes "now"), .symbol 40, .symbol 41, comma] := by decide

theorem sql_whereId : sql " WHERE id = " =
    [.keyword .where_, .name (bytes "id"), .symbol 61] := by decide

theorem sql_setDeleted : sql " SET deleted = now() WHERE id = " = [.keyword .set,
    .name (bytes "deleted"), .symbol 61, .name (bytes "now"), .symbol 40, .symbol 41,
    .keyword .where_, .name (bytes "id"), .symbol 61] := by decide

theorem sql_returning : sql " RETURNING id" =
    [.keyword .returning, .name (bytes "id")] := by decide

theorem sql_returningEnd : sql " RETURNING id;" =
    [.keyword .returning, .name (bytes "id"), semicolon] := by decide

end Pieces

/-- The test for rows that are not deleted. -/
def notDeleted (model : PgSqlModel) : List Atom :=
  if model.hasColumn (bytes "deleted") then [.isNull (bytes "deleted")] else []

/-- The order of the rows that `Where` returns. -/
def byCreated (model : PgSqlModel) : Option Bytes :=
  if model.hasColumn (bytes "created") then some (bytes "created") else none

theorem parse_allText (declared : model.Declared) :
    parse model.allText = some (.select none model.table [model.notDeleted] none) := by
  unfold allText notDeleted
  rw [declared.lex_table, sql_selectAll, sql_whereDeleted, sql_semicolon]
  by_cases deleted : model.hasColumn (bytes "deleted") = true
  · simp [deleted, parse, withoutSemicolon, parseSelect, splitAt, parseItems, parseRows,
      parseCondition, pieces, parseAtom]
  · simp [deleted, parse, withoutSemicolon, parseSelect, splitAt, parseItems, parseRows]

theorem parse_accessText (declared : model.Declared) {key : Bytes} (identifier : Identifier key)
    (value : Bytes) :
    parse (model.accessText key value) =
      some (.select none model.table [.equals key value :: model.notDeleted] none) := by
  unfold accessText notDeleted quote
  rw [declared.lex_table, lex_identifier identifier, sql_selectAll, sql_andDeleted, sql_semicolon,
    sql_where, sql_equals]
  by_cases deleted : model.hasColumn (bytes "deleted") = true
  · simp [deleted, parse, withoutSemicolon, parseSelect, splitAt, parseItems, parseRows,
      parseCondition, pieces, parseAtom]
  · simp [deleted, parse, withoutSemicolon, parseSelect, splitAt, parseItems, parseRows,
      parseCondition, pieces, parseAtom]

section Projection

def shown (cols : List Column) : List Column :=
  cols.filter (!Column.hidden ·)

/-- What a visible column selects. -/
def item (column : Column) : Item :=
  if column.name = bytes "location" then
    .computed (bytes "st_asgeojson") (bytes "location") (bytes "location")
  else .column column.name

/-- The last column is hidden behind a visible one, which leaves a comma behind
the last selected column. -/
def Dangling (cols : List Column) : Prop :=
  shown cols ≠ [] ∧ ∃ column ∈ cols.getLast?, column.hidden = true

instance (cols : List Column) : Decidable (Dangling cols) :=
  inferInstanceAs (Decidable (_ ∧ ∃ column ∈ cols.getLast?, column.hidden = true))

/-- The tokens of one visible column. -/
def itemText (column : Column) : List Token :=
  if column.name = bytes "location" then sql "ST_AsGeoJSON(location) as location"
  else lex column.name

theorem parseItem_itemText {column : Column} (identifier : Identifier column.name) :
    parseItem (itemText column) = some (item column) := by
  unfold itemText item
  split
  · rw [sql_location]
    rfl
  · rw [lex_identifier identifier]
    rfl

theorem comma_notMem_itemText {column : Column} (identifier : Identifier column.name) :
    comma ∉ itemText column := by
  unfold itemText
  split
  · rw [sql_location]
    decide
  · rw [lex_identifier identifier]
    simp [comma]

theorem colList_cons (column : Column) (cols : List Column) :
    colList (column :: cols) =
      (if column.hidden then [] else itemText column ++ if cols ≠ [] then [comma] else []) ++
        colList cols := by
  rw [colList, sql_comma]
  rfl

/-- The pieces of the list are the visible columns, and nothing behind a comma
at the end. -/
theorem parse_colList (cols : List Column) (identifiers : ∀ column ∈ cols, Identifier column.name) :
    (pieces comma (colList cols)).mapM parseItem =
      if ∃ column ∈ cols.getLast?, column.hidden = false then some ((shown cols).map item)
      else none := by
  induction cols with
  | nil => rfl
  | cons column cols ih =>
      obtain ⟨identifier, others⟩ := List.forall_mem_cons.mp identifiers
      have rest := ih others
      rw [colList_cons]
      cases cols with
      | nil =>
          cases hidden : column.hidden with
          | true => simp [colList, pieces, parseItem, hidden]
          | false =>
              simp [colList, pieces_of_notMem (comma_notMem_itemText identifier),
                parseItem_itemText identifier, hidden, shown]
      | cons next cols =>
          cases hidden : column.hidden with
          | true => simpa [shown, hidden] using rest
          | false =>
              have front := pieces_append (comma_notMem_itemText identifier)
                (colList (next :: cols))
              simp only [Bool.false_eq_true, if_false, ne_eq, reduceCtorEq, not_false_iff, if_true,
                List.append_assoc, List.singleton_append, front, List.mapM_cons,
                parseItem_itemText identifier, rest, List.getLast?_cons_cons]
              split
              · simp [shown, hidden]
              · rfl

theorem itemText_starts {column : Column} (identifier : Identifier column.name) :
    ∃ name rest, itemText column = .name name :: rest := by
  unfold itemText
  split
  · rw [sql_location]
    exact ⟨_, _, rfl⟩
  · rw [lex_identifier identifier]
    exact ⟨_, _, rfl⟩

theorem colList_cases (cols : List Column)
    (identifiers : ∀ column ∈ cols, Identifier column.name) :
    (shown cols = [] ∧ colList cols = []) ∨
      (shown cols ≠ [] ∧ ∃ name rest, colList cols = .name name :: rest) := by
  induction cols with
  | nil => exact .inl ⟨rfl, rfl⟩
  | cons column cols ih =>
      obtain ⟨identifier, others⟩ := List.forall_mem_cons.mp identifiers
      rw [colList_cons]
      cases hidden : column.hidden with
      | true => simpa [shown, hidden] using ih others
      | false =>
          right
          obtain ⟨name, rest, starts⟩ := itemText_starts identifier
          exact ⟨by simp [shown, hidden], by simp [starts]⟩

theorem parseItems_colList (cols : List Column)
    (identifiers : ∀ column ∈ cols, Identifier column.name) :
    parseItems (colList cols) =
      if Dangling cols then none else some (some ((shown cols).map item)) := by
  rcases colList_cases cols identifiers with ⟨none, empty⟩ | ⟨some, name, rest, starts⟩
  · simp [empty, parseItems, Dangling, none]
  · have items := parse_colList cols identifiers
    have star : colList cols ≠ [.symbol (ch '*')] := by simp [starts]
    have nonempty : colList cols ≠ [] := by simp [starts]
    rw [parseItems, if_neg star, if_neg nonempty, items]
    have last : (∃ column ∈ cols.getLast?, column.hidden = false) ↔ ¬ Dangling cols := by
      have present : cols ≠ [] := by
        rintro rfl
        exact some rfl
      simp [Dangling, some, List.getLast?_eq_some_getLast present]
    by_cases dangling : Dangling cols
    · rw [if_neg fun visible => last.mp visible dangling, if_pos dangling]
      rfl
    · rw [if_pos (last.mpr dangling), if_neg dangling]
      rfl

end Projection

theorem keyword_notMem_colList (cols : List Column)
    (identifiers : ∀ column ∈ cols, Identifier column.name) :
    .keyword .from_ ∉ colList cols := by
  induction cols with
  | nil => simp [colList]
  | cons column cols ih =>
      obtain ⟨identifier, others⟩ := List.forall_mem_cons.mp identifiers
      have rest := ih others
      have text : Token.keyword .from_ ∉ itemText column := by
        unfold itemText
        split
        · rw [sql_location]
          decide
        · rw [lex_identifier identifier]
          simp
      rw [colList_cons]
      split
      · simpa using rest
      · split <;> simp [text, rest, comma]

theorem parse_whereText (declared : model.Declared) {key : Bytes} (identifier : Identifier key)
    (value : Bytes) :
    parse (model.whereText key value) =
      if Dangling model.cols then none
      else some (.select (some ((shown model.cols).map item)) model.table
        [.equals key value :: model.notDeleted] model.byCreated) := by
  have items := parseItems_colList model.cols declared.columns
  have fromCols := splitAt_of_notMem (keyword_notMem_colList model.cols declared.columns)
  unfold whereText notDeleted byCreated quote
  rw [declared.lex_table, lex_identifier identifier, sql_select, sql_andDeleted, sql_from,
    sql_where, sql_equals, sql_order]
  by_cases deleted : model.hasColumn (bytes "deleted") = true <;>
    by_cases created : model.hasColumn (bytes "created") = true <;>
    by_cases dangling : Dangling model.cols <;>
    simp [deleted, created, dangling, parse, withoutSemicolon, parseSelect, splitAt, items,
      fromCols, parseRows, parseCondition, pieces, parseAtom, semicolon, List.getLast?_cons,
      List.getLast?_append, List.dropLast_cons_of_ne_nil, List.dropLast_append_of_ne_nil]

section Queries

variable {server : Server} {rows : List Row}

theorem query_eq_select {tokens : List Token} {items : Option (List Item)} {table : Bytes}
    {condition : Condition} {descending : Option Bytes}
    (parses : parse tokens = some (.select items table condition descending)) :
    query server rows tokens = select server rows items table condition descending := by
  rw [query, exec_eq_some parses, execute, Option.map_map]
  exact Option.map_id'

/-- What `Where` and `Access` select. -/
theorem holds_iff {key value : Bytes} {row : Row} :
    Condition.holds server [.equals key value :: model.notDeleted] row = true ↔
      ((row.cell key).isSome ∧ row.cell key = server.cast key value) ∧
        (model.hasColumn (bytes "deleted") = true → row.cell (bytes "deleted") = none) := by
  simp only [Condition.holds, List.any_cons, List.any_nil, Bool.or_false, List.all_cons,
    Bool.and_eq_true, Atom.holds, beq_iff_eq]
  by_cases has : model.hasColumn (bytes "deleted") = true <;> simp [notDeleted, has, Atom.holds]

end Queries

end PgSqlModel

end Libjaypea
