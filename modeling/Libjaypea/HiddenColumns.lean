import Libjaypea.PgSqlStatements

/-!
# Hidden columns

Two tables that differ only in hidden columns give the same answers, except
where a hidden column is the key of `Where` or orders its rows, and where a
login finds a row without a password.
-/

namespace Libjaypea

open Sql

namespace PgSqlModel

variable (model : PgSqlModel)

/-- The column is hidden wherever the list has it. -/
def Secret (name : Bytes) : Prop :=
  (∃ column ∈ model.cols, column.name = name) ∧
    ∀ column ∈ model.cols, column.name = name → column.hidden = true

/-- Two rows differ only in hidden columns, and both or neither is deleted. -/
structure Alike (first second : Row) : Prop where
  identity : first.identity = second.identity
  cells : ∀ name, ¬ model.Secret name → first.cell name = second.cell name
  deleted : model.hasColumn (bytes "deleted") = true →
    (first.cell (bytes "deleted")).isNone = (second.cell (bytes "deleted")).isNone

/-- Two records have the same fields in the visible columns. -/
def SameShown (first second : Record) : Prop :=
  ∀ column ∈ model.cols, column.hidden = false →
    field first column.name = field second column.name

variable {model}

theorem not_secret {column : Column} (member : column ∈ model.cols)
    (visible : column.hidden = false) : ¬ model.Secret column.name := by
  rintro ⟨-, hidden⟩
  rw [hidden column member rfl] at visible
  cases visible

section Conversion

theorem rowMembers_congr {first second : Record} {cols : List Column}
    (same : ∀ column ∈ cols, column.hidden = false →
      field first column.name = field second column.name) (json : JsonObject) :
    rowMembers first cols json = rowMembers second cols json := by
  induction cols generalizing json with
  | nil => rfl
  | cons column cols ih =>
      obtain ⟨head, tail⟩ := List.forall_mem_cons.mp same
      unfold rowMembers
      cases hidden : column.hidden with
      | true => simpa using ih tail json
      | false =>
          simp only [Bool.false_eq_true, if_false, head hidden]
          split
          · rfl
          · exact ih tail json
          · exact ih tail _

theorem rowToJson_congr {first second : Record} (same : model.SameShown first second) :
    model.rowToJson first = model.rowToJson second :=
  rowMembers_congr same _

/-- `ResultToJson` shows the visible columns alone. -/
theorem resultToJson_congr {res other : List Record}
    (same : List.Forall₂ model.SameShown res other) :
    model.resultToJson res = model.resultToJson other := by
  have rows : res.mapM model.rowToJson = other.mapM model.rowToJson := by
    induction same with
    | nil => rfl
    | cons head _ ih => rw [List.mapM_cons, List.mapM_cons, rowToJson_congr head, ih]
  rw [resultToJson, resultToJson, rows]

theorem field_record_none (server : Server) (row : Row) (name : Bytes) :
    field (row.record server none) name =
      if name ∈ server.columns then some (row.cell name) else none := by
  rw [field, Row.record, KeyedList.get?_map_key]
  split <;> simp [*]

theorem Alike.record_none {first second : Row} (alike : model.Alike first second)
    (server : Server) :
    model.SameShown (first.record server none) (second.record server none) := by
  intro column member visible
  rw [field_record_none, field_record_none, alike.cells column.name (not_secret member visible)]

theorem item_field_congr {server : Server} {first second : Row} {column : Column}
    (cell : first.cell column.name = second.cell column.name) :
    (item column).field server first = (item column).field server second := by
  unfold item
  split
  · rename_i location
    rw [location] at cell
    simp only [Item.field, cell]
  · simp only [Item.field, cell]

theorem Alike.record_items {first second : Row} (alike : model.Alike first second)
    (server : Server) :
    first.record server (some ((shown model.cols).map item)) =
      second.record server (some ((shown model.cols).map item)) := by
  have fields : ∀ column ∈ shown model.cols,
      (item column).field server first = (item column).field server second := by
    intro column member
    obtain ⟨present, visible⟩ := List.mem_filter.mp member
    exact item_field_congr (alike.cells column.name (not_secret present (by simpa using visible)))
  simp only [Row.record, alike.identity, List.map_map, Function.comp_def]
  rw [List.map_congr_left fields]

end Conversion

section Selection

variable {server : Server} {first second : Row}

theorem Alike.holds_notDeleted (alike : model.Alike first second) :
    Condition.holds server [model.notDeleted] first =
      Condition.holds server [model.notDeleted] second := by
  unfold notDeleted
  split
  · rename_i deleted
    simp [Condition.holds, Atom.holds, alike.deleted deleted]
  · rfl

theorem Alike.holds_key (alike : model.Alike first second) {key : Bytes}
    (visible : ¬ model.Secret key) (value : Bytes) :
    Condition.holds server [.equals key value :: model.notDeleted] first =
      Condition.holds server [.equals key value :: model.notDeleted] second := by
  have rest : Condition.holds server _ _ = Condition.holds server _ _ := alike.holds_notDeleted
  simp only [Condition.holds, List.any_cons, List.any_nil, Bool.or_false, List.all_cons] at rest ⊢
  simp only [Atom.holds, alike.cells key visible, rest]

/-- A row that is not deleted has no value to compare with. -/
theorem holds_deleted (has : model.hasColumn (bytes "deleted") = true) (value : Bytes)
    (row : Row) :
    Condition.holds server [.equals (bytes "deleted") value :: model.notDeleted] row = false := by
  simp only [notDeleted, has, if_true, Condition.holds, List.any_cons, List.any_nil,
    Bool.or_false, List.all_cons, List.all_nil, Atom.holds, Bool.and_true]
  cases row.cell (bytes "deleted") <;> simp

/-- Rows of two tables that are alike. -/
theorem exists_pairs {rows others : List Row} (alike : List.Forall₂ model.Alike rows others) :
    ∃ pairs : List (Row × Row), rows = pairs.map Prod.fst ∧ others = pairs.map Prod.snd ∧
      ∀ pair ∈ pairs, model.Alike pair.1 pair.2 := by
  induction alike with
  | nil => exact ⟨[], rfl, rfl, by simp⟩
  | @cons first second rows others head _ ih =>
      obtain ⟨pairs, rfl, rfl, tail⟩ := ih
      exact ⟨(first, second) :: pairs, rfl, rfl, List.forall_mem_cons.mpr ⟨head, tail⟩⟩

variable {rows others : List Row}

/-- The records of whole rows that two tables give. -/
theorem selectAll_alike (alike : List.Forall₂ model.Alike rows others) {condition : Condition}
    (holds : ∀ first second, model.Alike first second →
      condition.holds server first = condition.holds server second) :
    (select server rows none model.table condition none = none ∧
        select server others none model.table condition none = none) ∨
      ∃ kept : List (Row × Row), (∀ pair ∈ kept, model.Alike pair.1 pair.2) ∧
        select server rows none model.table condition none =
          some (kept.map fun pair => pair.1.record server none) ∧
        select server others none model.table condition none =
          some (kept.map fun pair => pair.2.record server none) := by
  obtain ⟨pairs, rfl, rfl, same⟩ := exists_pairs alike
  have order : ∀ column ∈ (none : Option Bytes), ∀ pair ∈ pairs, ∀ other ∈ pairs,
      comesFirst server column pair.1 other.1 = comesFirst server column pair.2 other.2 :=
    fun column absent => by cases absent
  rcases select_pairs none model.table (fun pair member => holds _ _ (same pair member)) order with
    neither | ⟨kept, selected, first, second⟩
  · exact .inl neither
  · exact .inr ⟨kept, fun pair member => same pair (selected pair member).1, first, second⟩

/-- `All` does not depend on hidden columns. -/
theorem all_congr (declared : model.Declared) (alike : List.Forall₂ model.Alike rows others) :
    model.all server rows = model.all server others := by
  have parses := parse_allText declared
  rw [all, all, query_eq_select parses, query_eq_select parses]
  have holds : ∀ first second, model.Alike first second →
      Condition.holds server [model.notDeleted] first =
        Condition.holds server [model.notDeleted] second :=
    fun first second alike => alike.holds_notDeleted
  rcases selectAll_alike alike holds with ⟨first, second⟩ | ⟨kept, same, first, second⟩
  · rw [first, second]
  · rw [first, second]
    apply resultToJson_congr
    rw [List.forall₂_map_left_iff, List.forall₂_map_right_iff, List.forall₂_same]
    exact fun pair member => (same pair member).record_none server

theorem where_eq (declared : model.Declared) {key : Bytes} (has : model.hasColumn key = true)
    (value : Bytes) :
    model.where_ server rows key value =
      if Dangling model.cols then badData
      else ((select server rows (some ((shown model.cols).map item)) model.table
        [.equals key value :: model.notDeleted] model.byCreated).bind model.resultToJson).getD
          badData := by
  have parses := parse_whereText declared (declared.identifier has) value
  rw [where_, has, Bool.not_true, if_neg Bool.false_ne_true]
  by_cases dangling : Dangling model.cols
  · rw [if_pos dangling] at parses
    rw [if_pos dangling, query, exec, parses]
    rfl
  · rw [if_neg dangling] at parses
    rw [if_neg dangling, query_eq_select parses]

/-- The calls of `Where` whose answers do not depend on hidden columns: for an
unknown key, with a list that makes the statement fail, by the deletion, which
selects nothing, or by a visible key; if a hidden column orders the rows, what
is selected must be the same in all of them. -/
def WhereSafe (model : PgSqlModel) (key : Bytes) : Prop :=
  model.hasColumn key = false ∨ Dangling model.cols ∨ key = bytes "deleted" ∨
    ¬ model.Secret key ∧ (model.Secret (bytes "created") →
      ∀ column ∈ shown model.cols, column.name = key ∨ column.name = bytes "deleted")

theorem select_congr_of_false {items : Option (List Item)} {table : Bytes} {condition : Condition}
    {descending : Option Bytes} (never : ∀ row, condition.holds server row = false) :
    select server rows items table condition descending =
      select server others items table condition descending := by
  have empty : ∀ rows : List Row, rows.filter (condition.holds server) = [] := by
    intro rows
    simp [never]
  rw [select, select, empty, empty]

/-- Rows that a condition on a visible key selects look the same when only the
key and the deletion are shown. -/
theorem sameShown_of_holds {key value : Bytes} (shows : ∀ column ∈ shown model.cols,
      column.name = key ∨ column.name = bytes "deleted")
    (firstHolds : Condition.holds server [.equals key value :: model.notDeleted] first = true)
    (secondHolds : Condition.holds server [.equals key value :: model.notDeleted] second = true) :
    model.SameShown (first.record server (some ((shown model.cols).map item)))
      (second.record server (some ((shown model.cols).map item))) := by
  have cells : ∀ column ∈ shown model.cols, first.cell column.name = second.cell column.name := by
    intro column member
    obtain ⟨⟨-, firstKey⟩, firstRest⟩ := holds_iff.mp firstHolds
    obtain ⟨⟨-, secondKey⟩, secondRest⟩ := holds_iff.mp secondHolds
    rcases shows column member with name | name
    · rw [name, firstKey, secondKey]
    · have has : model.hasColumn (bytes "deleted") = true :=
        hasColumn_of_mem (List.mem_filter.mp member).1 name
      rw [name, firstRest has, secondRest has]
  have fields : (first.record server (some ((shown model.cols).map item))).fields =
      (second.record server (some ((shown model.cols).map item))).fields := by
    simp only [Row.record, List.map_map, Function.comp_def]
    exact List.map_congr_left fun column member => item_field_congr (cells column member)
  intro column member visible
  rw [field, field, fields]

theorem forall₂_of_forall {α β : Type*} {related : α → β → Prop} {left : List α} {right : List β}
    (lengths : left.length = right.length) (all : ∀ a ∈ left, ∀ b ∈ right, related a b) :
    List.Forall₂ related left right := by
  rw [List.forall₂_iff_zip]
  exact ⟨lengths, fun member => all _ (List.of_mem_zip member).1 _ (List.of_mem_zip member).2⟩

theorem selectShown_congr {pairs : List (Row × Row)} {key value : Bytes}
    {descending : Option Bytes}
    (shows : ∀ column ∈ shown model.cols, column.name = key ∨ column.name = bytes "deleted")
    (holds : ∀ pair ∈ pairs,
      Condition.holds server [.equals key value :: model.notDeleted] pair.1 =
        Condition.holds server [.equals key value :: model.notDeleted] pair.2) :
    (select server (pairs.map Prod.fst) (some ((shown model.cols).map item)) model.table
        [.equals key value :: model.notDeleted] descending).bind model.resultToJson =
      (select server (pairs.map Prod.snd) (some ((shown model.cols).map item)) model.table
        [.equals key value :: model.notDeleted] descending).bind model.resultToJson := by
  rcases select_both (pairs.map Prod.fst) (pairs.map Prod.snd)
      (some ((shown model.cols).map item)) model.table [.equals key value :: model.notDeleted]
      descending with ⟨first, second⟩ | ⟨kept, kept', perm, perm', first, second⟩
  · rw [first, second]
  · rw [first, second, Option.bind_some, Option.bind_some]
    apply resultToJson_congr
    have lengths : kept.length = kept'.length := by
      rw [perm.length_eq, perm'.length_eq, List.filter_map, List.filter_map, List.length_map,
        List.length_map]
      exact congrArg _ (List.filter_congr fun pair member => holds pair member)
    rw [List.forall₂_map_left_iff, List.forall₂_map_right_iff]
    apply forall₂_of_forall lengths
    intro row member other otherMember
    exact sameShown_of_holds shows (List.mem_filter.mp (perm.mem_iff.mp member)).2
      (List.mem_filter.mp (perm'.mem_iff.mp otherMember)).2

theorem selectItems_congr {pairs : List (Row × Row)} {condition : Condition}
    {descending : Option Bytes} (same : ∀ pair ∈ pairs, model.Alike pair.1 pair.2)
    (holds : ∀ pair ∈ pairs, condition.holds server pair.1 = condition.holds server pair.2)
    (visible : ∀ column ∈ descending, ¬ model.Secret column) :
    select server (pairs.map Prod.fst) (some ((shown model.cols).map item)) model.table condition
        descending =
      select server (pairs.map Prod.snd) (some ((shown model.cols).map item)) model.table condition
        descending := by
  have order : ∀ column ∈ descending, ∀ pair ∈ pairs, ∀ other ∈ pairs,
      comesFirst server column pair.1 other.1 = comesFirst server column pair.2 other.2 := by
    intro column member pair present other otherPresent
    rw [comesFirst, comesFirst, (same pair present).cells column (visible column member),
      (same other otherPresent).cells column (visible column member)]
  rcases select_pairs (some ((shown model.cols).map item)) model.table holds order with
    ⟨first, second⟩ | ⟨kept, selected, first, second⟩
  · rw [first, second]
  · rw [first, second]
    exact congrArg _ (List.map_congr_left fun pair member =>
      (same pair (selected pair member).1).record_items server)

theorem mem_byCreated {column : Bytes} (member : column ∈ model.byCreated) :
    column = bytes "created" := by
  unfold byCreated at member
  split at member
  · exact (Option.some.inj member).symm
  · cases member

theorem where_congr (declared : model.Declared) {key : Bytes} (safe : WhereSafe model key)
    (alike : List.Forall₂ model.Alike rows others) (value : Bytes) :
    model.where_ server rows key value = model.where_ server others key value := by
  by_cases known : model.hasColumn key = true
  · rw [where_eq declared known, where_eq declared known]
    rcases safe with unknown | dangling | rfl | ⟨visible, created⟩
    · rw [unknown] at known
      cases known
    · rw [if_pos dangling, if_pos dangling]
    · rw [select_congr_of_false (holds_deleted known value)]
    · obtain ⟨pairs, rfl, rfl, same⟩ := exists_pairs alike
      have holds : ∀ pair ∈ pairs, Condition.holds server
          [.equals key value :: model.notDeleted] pair.1 =
          Condition.holds server [.equals key value :: model.notDeleted] pair.2 :=
        fun pair member => (same pair member).holds_key visible value
      by_cases secret : model.Secret (bytes "created")
      · rw [selectShown_congr (created secret) holds]
      · rw [selectItems_congr same holds fun column member => ?_]
        obtain rfl := mem_byCreated member
        exact secret
  · simp [where_, known]

end Selection

end PgSqlModel

end Libjaypea
