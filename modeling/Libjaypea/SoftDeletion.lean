import Libjaypea.PgSqlStatements
import Libjaypea.SqlChanges
import Libjaypea.Transitions

/-!
# Soft deletion

The calls of a model, one after another, on the rows of its table.  A row whose
deletion has succeeded keeps a value in `deleted`, because no text that a call
sends contains the word `NULL`.
-/

namespace Libjaypea

open Sql Transitions

namespace PgSqlModel

variable {model : PgSqlModel}

section Texts

theorem withoutNull_append {tokens others : List Token} :
    WithoutNull (tokens ++ others) ↔ WithoutNull tokens ∧ WithoutNull others := by
  simp only [WithoutNull, List.mem_append, not_or]

theorem withoutNull_quote (value : Bytes) : WithoutNull (quote value) := by
  simp [WithoutNull, quote]

theorem withoutNull_lex {text : Bytes} (identifier : Identifier text) : WithoutNull (lex text) := by
  rw [lex_identifier identifier]
  simp [WithoutNull]

theorem withoutNull_listed {texts : List (List Token)} (each : ∀ text ∈ texts, WithoutNull text) :
    WithoutNull (listed texts) := by
  rw [listed, sql_comma]
  induction texts with
  | nil => simp [WithoutNull]
  | cons text texts ih =>
      obtain ⟨head, tail⟩ := List.forall_mem_cons.mp each
      cases texts with
      | nil => simpa using head
      | cons next texts =>
          rw [List.intercalate_cons_cons, withoutNull_append, withoutNull_append]
          exact ⟨⟨head, by simp [WithoutNull, comma]⟩, ih tail⟩

/-- The members that a call may name. -/
def Known (model : PgSqlModel) (values : List (Bytes × JsonObject)) : Prop :=
  ∀ entry ∈ values, model.hasColumn entry.1 = true

theorem known_iff {values : List (Bytes × JsonObject)} :
    values.any (!model.hasColumn ·.1) = false ↔ model.Known values := by
  simp [Known]

theorem withoutNull_updateText (declared : model.Declared) {values : List (Bytes × JsonObject)}
    (known : model.Known values) (id : Bytes) : WithoutNull (model.updateText id values) := by
  have assignments : WithoutNull (listed (values.map fun entry =>
      lex entry.1 ++ sql " = " ++ quote entry.2.stringValue)) := by
    apply withoutNull_listed
    intro text member
    obtain ⟨entry, present, rfl⟩ := List.mem_map.mp member
    have key := withoutNull_lex (declared.identifier (known entry present))
    simp only [withoutNull_append, key, withoutNull_quote, true_and, and_true]
    decide
  have modified : WithoutNull
      (if model.hasColumn (bytes "modified") then sql "modified = now(), " else []) := by
    split <;> decide
  simp only [updateText, withoutNull_append, withoutNull_lex declared.table, withoutNull_quote,
    assignments, modified, and_true]
  decide

theorem withoutNull_insertText (declared : model.Declared) {location : List Token}
    {values : List (Bytes × JsonObject)} (known : model.Known values)
    (place : WithoutNull location) : WithoutNull (model.insertText location values) := by
  have names : WithoutNull (listed (values.map fun entry => lex entry.1)) := by
    apply withoutNull_listed
    intro text member
    obtain ⟨entry, present, rfl⟩ := List.mem_map.mp member
    exact withoutNull_lex (declared.identifier (known entry present))
  have texts : WithoutNull (listed (values.map fun entry =>
      if entry.1 = bytes "location" then location else quote entry.2.stringValue)) := by
    apply withoutNull_listed
    intro text member
    obtain ⟨entry, -, rfl⟩ := List.mem_map.mp member
    split
    · exact place
    · exact withoutNull_quote _
  have last : WithoutNull
      (if model.hasColumn (bytes "id") then sql ") RETURNING id;" else sql ");") := by
    split <;> decide
  simp only [insertText, withoutNull_append, withoutNull_lex declared.table, names, texts, last,
    and_true]
  decide

theorem withoutNull_locate {values located : List (Bytes × JsonObject)} {location : List Token}
    (locates : model.locate values = some (location, located)) : WithoutNull location := by
  unfold locate at locates
  split at locates
  · split at locates
    · cases locates
      simp only [withoutNull_append, withoutNull_quote, and_true]
      decide
    · cases locates
  · cases locates
    decide

/-- The statement of `Delete`. -/
theorem parse_deleteText (declared : model.Declared) (id : Bytes) :
    parse (model.deleteText id) = some (.update model.table
      [(bytes "deleted", .constant (bytes "now"))] [[.equals (bytes "id") id]]
      (if model.hasColumn (bytes "id") then some (bytes "id") else none)) := by
  have byte : ch ',' = 44 := by decide
  unfold deleteText quote
  rw [declared.lex_table, sql_setDeleted, sql_update, sql_returning, sql_semicolon]
  by_cases id : model.hasColumn (bytes "id") = true <;>
    simp [id, parse, withoutSemicolon, parseUpdate, splitAt, pieces, comma, byte, parseAssignment,
      parseOperand, parseReturning, parseCondition, parseAtom]

end Texts

section Calls

/-- The rows of the table, and the ones whose deletion has succeeded. -/
structure Database where
  rows : List Row
  deleted : List Nat

/-- A table that is filled with rows. -/
def Database.new (cells : List (Bytes → Option Bytes)) : Database :=
  ⟨cells.zipIdx.map fun entry => ⟨entry.2, entry.1⟩, []⟩

inductive Call
  | insert (values : List (Bytes × JsonObject))
  | update (id : Bytes) (values : List (Bytes × JsonObject))
  | delete (id : Bytes)
  | where_ (key value : Bytes)
  | all
  | access (key value password : Bytes)

/-- A call, with what the server brings to its statement. -/
structure Event where
  server : Server
  call : Call

/-- The rows that a call of `Delete` has deleted when it answers with an id. -/
def deletes (model : PgSqlModel) (server : Server) (rows : List Row) (id : Bytes) : List Nat :=
  match Sql.exec server rows (model.deleteText id) with
  | some (res, _) => if (idResult res).isSome then res.map Record.identity else []
  | none => []

def Database.call (model : PgSqlModel) (server : Server) (database : Database) :
    Call → Database
  | .insert values => { database with rows := (model.insert server database.rows values).2 }
  | .update id values => { database with rows := (model.update server database.rows id values).2 }
  | .delete id =>
      ⟨(model.delete server database.rows id).2,
        database.deleted ++ deletes model server database.rows id⟩
  | .where_ _ _ => database
  | .all => database
  | .access _ _ _ => database

def Database.next (model : PgSqlModel) (database : Database) (event : Event) : Option Database :=
  some (database.call model event.server event.call)

/-- The rows that the answer of a call contains. -/
def contained (model : PgSqlModel) (server : Server) (rows : List Row) : Call → List Record
  | .where_ key value =>
      if !model.hasColumn key then [] else (query server rows (model.whereText key value)).getD []
  | .all => (query server rows model.allText).getD []
  | .access key value password =>
      match query server rows (model.accessText key value) with
      | some (row :: _) => if field row (bytes "password") = some (some password) then [row] else []
      | _ => []
  | _ => []

/-- `Access` is called with a column of the model, which it does not check. -/
def Proper (model : PgSqlModel) (_ : Database) (event : Event) : Prop :=
  ∀ key value password, event.call = .access key value password → model.hasColumn key = true

end Calls

section Invariant

variable {server : Server} {database : Database}

structure Gone (database : Database) : Prop where
  distinct : (database.rows.map Row.identity).Nodup
  present : ∀ identity ∈ database.deleted, identity ∈ database.rows.map Row.identity
  deleted : ∀ identity ∈ database.deleted, ∀ row ∈ database.rows, row.identity = identity →
    (row.cell (bytes "deleted")).isSome

theorem gone_new (cells : List (Bytes → Option Bytes)) : Gone (Database.new cells) := by
  refine ⟨?_, fun identity member => ?_, fun identity member => ?_⟩
  · simp only [Database.new, List.map_map, Function.comp_def]
    have identities : cells.zipIdx.map (fun entry => entry.2) = List.range' 0 cells.length :=
      List.zipIdx_map_snd 0 cells
    rw [identities]
    exact List.nodup_range'
  · cases member
  · cases member

theorem Gone.keeps (gone : Gone database) {after : List Row}
    (keeps : Keeps (bytes "deleted") database.rows after) : Gone ⟨after, database.deleted⟩ := by
  refine ⟨keeps.nodup gone.distinct, fun identity member => keeps.remains (gone.present _ member),
    fun identity member later found same => ?_⟩
  rcases keeps.origin later found with ⟨row, old, rowIdentity, stays⟩ | new
  · exact stays (gone.deleted identity member row old (rowIdentity.trans same))
  · have known := gone.present identity member
    rw [← same, new] at known
    exact absurd known (newIdentity_notMem _)

theorem change_keeps {rows : List Row} {tokens : List Token} (absent : WithoutNull tokens)
    (column : Bytes) : Keeps column rows (change server rows tokens).2 := by
  unfold change
  split
  · exact Keeps.refl column rows
  · exact exec_keeps absent ‹_› column

theorem insert_call_keeps (declared : model.Declared) (rows : List Row)
    (values : List (Bytes × JsonObject)) (column : Bytes) :
    Keeps column rows (model.insert server rows values).2 := by
  unfold PgSqlModel.insert
  split
  · exact Keeps.refl column rows
  · rename_i location located locates
    split
    · exact Keeps.refl column rows
    · rename_i known
      have absent := withoutNull_insertText declared (known_iff.mp (Bool.eq_false_iff.mpr known))
        (withoutNull_locate locates)
      split
      · exact change_keeps absent column
      · split
        · exact Keeps.refl column rows
        · exact exec_keeps absent ‹_› column

theorem update_call_keeps (declared : model.Declared) (rows : List Row) (id : Bytes)
    (values : List (Bytes × JsonObject)) (column : Bytes) :
    Keeps column rows (model.update server rows id values).2 := by
  unfold PgSqlModel.update
  split
  · exact Keeps.refl column rows
  · rename_i known
    exact change_keeps
      (withoutNull_updateText declared (known_iff.mp (Bool.eq_false_iff.mpr known)) id) column

theorem gone_delete (declared : model.Declared) (gone : Gone database) (id : Bytes) :
    Gone (database.call model server (.delete id)) := by
  simp only [Database.call, PgSqlModel.delete, change, deletes]
  cases executes : Sql.exec server database.rows (model.deleteText id) with
  | none => simpa using gone
  | some result =>
      obtain ⟨res, after⟩ := result
      have updates := executes
      rw [exec_eq_some (parse_deleteText declared id), execute] at updates
      have nonNull : ∀ assignment ∈ [(bytes "deleted", Operand.constant (bytes "now"))],
          assignment.2 ≠ .null := by simp
      have stays := gone.keeps (update_keeps nonNull updates (bytes "deleted"))
      have written := update_writes (by simp) gone.distinct updates
      have added : ∀ identity ∈ (if (idResult res).isSome then res.map Record.identity else []),
          ∃ record ∈ res, record.identity = identity := by
        intro identity member
        split at member
        · exact List.mem_map.mp member
        · cases member
      refine ⟨stays.distinct, fun identity member => ?_, fun identity member => ?_⟩
      · rcases List.mem_append.mp member with old | new
        · exact stays.present identity old
        · obtain ⟨record, returned, rfl⟩ := added identity new
          exact (update_keeps nonNull updates (bytes "deleted")).remains (written record returned).1
      · rcases List.mem_append.mp member with old | new
        · exact stays.deleted identity old
        · obtain ⟨record, returned, rfl⟩ := added identity new
          exact (written record returned).2

/-- Every call keeps what is deleted. -/
theorem Gone.next (declared : model.Declared) {next : Database} {event : Event}
    (gone : Gone database) (steps : database.next model event = some next) : Gone next := by
  cases steps
  cases call : event.call with
  | insert values => exact gone.keeps (insert_call_keeps declared _ values _)
  | update id values => exact gone.keeps (update_call_keeps declared _ id values _)
  | delete id => exact gone_delete declared gone id
  | where_ key value => exact gone
  | all => exact gone
  | access key value password => exact gone

end Invariant

section Results

variable {server : Server} {rows : List Row}

theorem all_contained (shown : JsonObject) (answers : model.all server rows = some shown) :
    model.resultToJson (contained model server rows .all) = some shown := by
  obtain ⟨res, found, shows⟩ := Option.bind_eq_some_iff.mp answers
  rw [contained, found]
  exact shows

/-- `Where` answers with an error or with the rows that it contains. -/
theorem where_contained (key value : Bytes) :
    model.where_ server rows key value = error (bytes "Bad key.") ∨
      model.where_ server rows key value = badData ∨
        model.resultToJson (contained model server rows (.where_ key value)) =
          some (model.where_ server rows key value) := by
  rw [where_, contained]
  split
  · exact .inl rfl
  · right
    cases found : query server rows (model.whereText key value) with
    | none => exact .inl rfl
    | some res =>
        cases shows : model.resultToJson res with
        | none => simp [shows]
        | some json => simp [shows]

/-- `Access` answers with an error or with the row that it contains. -/
theorem access_contained (key value password : Bytes) :
    (∃ message, model.access server rows key value password = error message) ∨
      ∃ row, contained model server rows (.access key value password) = [row] ∧
        model.rowToJson row = some (model.access server rows key value password) := by
  rw [access, contained]
  rcases query server rows (model.accessText key value) with _ | _ | ⟨row, res⟩
  · exact .inl ⟨_, rfl⟩
  · exact .inl ⟨_, rfl⟩
  · simp only [Option.bind_some, login]
    rcases field row (bytes "password") with _ | _ | stored
    · exact .inl ⟨_, rfl⟩
    · exact .inl ⟨_, rfl⟩
    · by_cases same : stored = password
      · cases shows : model.rowToJson row with
        | none => exact .inl ⟨bytes "Bad data.", by simp [same]⟩
        | some json => exact .inr ⟨row, by simp [same], by simp [same, shows]⟩
      · exact .inl ⟨bytes "Bad password.", by simp [same]⟩

/-- The selected rows are not deleted. -/
theorem mem_query {tokens : List Token} {items : Option (List Item)} {condition : Condition}
    {descending : Option Bytes}
    (parses : parse tokens = some (.select items model.table condition descending))
    (visible : ∀ row, condition.holds server row = true → row.cell (bytes "deleted") = none)
    {record : Record} (member : record ∈ (query server rows tokens).getD []) :
    ∃ row ∈ rows, row.identity = record.identity ∧ row.cell (bytes "deleted") = none := by
  rw [query_eq_select parses] at member
  cases selects : select server rows items model.table condition descending with
  | none => simp [selects] at member
  | some records =>
      rw [selects] at member
      obtain ⟨row, present, identity, holds⟩ := mem_select selects member
      exact ⟨row, present, identity, visible row holds⟩

theorem contained_not_deleted (declared : model.Declared)
    (deleted : model.hasColumn (bytes "deleted") = true) {call : Call}
    (proper : ∀ key value password, call = .access key value password →
      model.hasColumn key = true)
    {record : Record} (member : record ∈ contained model server rows call) :
    ∃ row ∈ rows, row.identity = record.identity ∧ row.cell (bytes "deleted") = none := by
  have keyed : ∀ key value row,
      Condition.holds server [.equals key value :: model.notDeleted] row = true →
        row.cell (bytes "deleted") = none :=
    fun key value row holds => (holds_iff.mp holds).2 deleted
  cases call with
  | insert values => cases member
  | update id values => cases member
  | delete id => cases member
  | all =>
      refine mem_query (parse_allText declared) (fun row holds => ?_) member
      simpa [Condition.holds, notDeleted, deleted, Atom.holds] using holds
  | where_ key value =>
      rw [contained] at member
      by_cases known : model.hasColumn key = true
      · rw [known, Bool.not_true, if_neg Bool.false_ne_true] at member
        have parses := parse_whereText declared (declared.identifier known) value
        by_cases dangling : Dangling model.cols
        · rw [if_pos dangling] at parses
          rw [query, Sql.exec, parses] at member
          cases member
        · rw [if_neg dangling] at parses
          exact mem_query parses (keyed key value) member
      · simp [known] at member
  | access key value password =>
      have known := proper key value password rfl
      have parses := parse_accessText declared (declared.identifier known) value
      apply mem_query parses (keyed key value)
      rw [contained] at member
      split at member
      · rename_i row res found
        rw [found]
        split at member
        · obtain rfl := List.mem_singleton.mp member
          exact List.mem_cons_self
        · cases member
      · cases member

end Results

/-- A row whose deletion has succeeded is never contained in an answer again. -/
theorem stays_deleted (declared : model.Declared)
    (deleted : model.hasColumn (bytes "deleted") = true) {cells : List (Bytes → Option Bytes)}
    {database : Database} {events : List Event}
    (run : Run (Database.next model) (Proper model) (Database.new cells) events database)
    {event : Event} (proper : Proper model database event) :
    ∀ record ∈ contained model event.server database.rows event.call,
      record.identity ∉ database.deleted := by
  have gone : Gone database := by
    apply run.invariant _ (gone_new cells)
    exact fun first event next gone _ steps => gone.next declared steps
  intro record member found
  obtain ⟨row, present, identity, none⟩ := contained_not_deleted declared deleted proper member
  have some := gone.deleted record.identity found row present identity
  rw [none] at some
  cases some

/-- The columns of type `SERIAL`. -/
def serials : List Bytes :=
  [bytes "id", bytes "owner_id", bytes "thread_id"]

/-- A server of numbers in these columns and of texts in the others, that knows
the time. -/
def clocked (model : PgSqlModel) : Server where
  table := model.table
  columns := model.cols.map Column.name
  cast column value :=
    if serials.contains column && !(value ≠ [] && value.all fun byte => ch '0' ≤ byte && byte ≤ ch '9')
    then none else some value
  precedes _ value other := value.length ≤ other.length
  constant function := if function = bytes "now" then some (bytes "2018-01-01") else none
  call _ _ := none
  computed _ value := value
  defaults _ := none
  accepts _ := true

/-- A user with the id 7. -/
def seventh : Bytes → Option Bytes :=
  KeyedList.get? [(bytes "id", bytes "7"), (bytes "username", bytes "ada"),
    (bytes "password", bytes "secret"), (bytes "email", bytes "a@b"), (bytes "first_name", bytes "A"),
    (bytes "last_name", bytes "L"), (bytes "color", bytes "gold"), (bytes "verified", bytes "f"),
    (bytes "modified", bytes "2018-01-01"), (bytes "created", bytes "2018-01-01")]

theorem stays_deleted_users :
    ∃ database, Run (Database.next users) (Proper users) (Database.new [seventh])
        [⟨clocked users, .delete (bytes "7")⟩] database ∧ database.deleted = [0] ∧
      ∀ record ∈ contained users (clocked users) database.rows
          (.access (bytes "username") (bytes "ada") (bytes "secret")),
        record.identity ∉ database.deleted := by
  have run : Run (Database.next users) (Proper users) (Database.new [seventh])
      [⟨clocked users, .delete (bytes "7")⟩]
      ((Database.new [seventh]).call users (clocked users) (.delete (bytes "7"))) :=
    .single (fun key value password same => by cases same) rfl
  refine ⟨_, run, by decide +kernel, ?_⟩
  have proper : Proper users ((Database.new [seventh]).call users (clocked users)
      (.delete (bytes "7")))
      ⟨clocked users, .access (bytes "username") (bytes "ada") (bytes "secret")⟩ := by
    intro key value password same
    cases same
    decide +kernel
  exact stays_deleted users_declared (by decide +kernel) run proper

/-- The key of a login is read as a part of the statement. -/
theorem exists_deleted_shown :
    ∃ database, Run (Database.next users) anything (Database.new [seventh])
        [⟨clocked users, .delete (bytes "7")⟩] database ∧
      ∃ record ∈ contained users (clocked users) database.rows
          (.access (bytes "id = '7' OR id") (bytes "7") (bytes "secret")),
        record.identity ∈ database.deleted :=
  ⟨_, .single trivial rfl, by decide +kernel⟩

end PgSqlModel

end Libjaypea
