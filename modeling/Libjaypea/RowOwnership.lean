import Libjaypea.Jph2Handlers

/-!
# Owners and their rows

In every run of requests a thread, a message or a point of interest is changed
only for its owner, and a user only for that user.  The id of a user is another
matter: `update_user` erases the wrong one.
-/

namespace Libjaypea

namespace Jph2

open Sql Transitions JsonObject
open PgSqlModel (users threads messages poi)

/-- The constraint `PRIMARY KEY` on the ids. -/
structure PrimaryKey (rows : List Row) : Prop where
  present : ∀ row ∈ rows, (row.cell (bytes "id")).isSome
  distinct : (rows.map (Row.cell · (bytes "id"))).Nodup

theorem primaryKey_iff {rows : List Row} :
    PrimaryKey rows ↔ (∀ row ∈ rows, (row.cell (bytes "id")).isSome) ∧
      (rows.map (Row.cell · (bytes "id"))).Nodup :=
  ⟨fun keyed => ⟨keyed.present, keyed.distinct⟩, fun ⟨present, distinct⟩ => ⟨present, distinct⟩⟩

instance (rows : List Row) : Decidable (PrimaryKey rows) :=
  decidable_of_iff _ primaryKey_iff.symm

/-- The id of the token is the text of the owner. -/
def Owns (token : JsonObject) (row : Row) : Prop :=
  ∃ id, token.getStr (bytes "id") = some id ∧ row.cell (bytes "owner_id") = some id

/-- The id of the token is the id of the user. -/
def IsUser (server : Server) (token : JsonObject) (row : Row) : Prop :=
  ∃ id, token.getStr (bytes "id") = some id ∧ HasId server id row

section Handlers

variable {security : Security} {model : PgSqlModel} {server : Server} {rows after : List Row}
  {json token : JsonObject}

theorem PrimaryKey.eq_of_hasId (keyed : PrimaryKey rows) {id : Bytes} {row other : Row}
    (member : row ∈ rows) (otherMember : other ∈ rows) (has : HasId server id row)
    (otherHas : HasId server id other) : row = other := by
  apply List.inj_on_of_nodup_map keyed.distinct member otherMember
  obtain ⟨value, reads, cell⟩ := has
  obtain ⟨otherValue, otherReads, otherCell⟩ := otherHas
  rw [cell, otherCell, ← reads, ← otherReads]

/-- Nothing is written, or the item with an id after its owner was checked. -/
def OwnerWrites (server : Server) (token : JsonObject) (rows after : List Row) : Prop :=
  after = rows ∨ ∃ id cells, Writes server id cells rows after ∧
    ∃ row ∈ rows, HasId server id row ∧ Owns token row

theorem changeItem_cases (declared : model.Declared)
    (change : Bytes → Option (JsonObject × List Row)) :
    (changeItem model server rows json token change).2 = rows ∨
      ∃ id answer after, change id = some (answer, after) ∧
        (changeItem model server rows json token change).2 = after ∧
        ∃ row ∈ rows, HasId server id row ∧ Owns token row := by
  unfold changeItem
  split
  · exact .inl rfl
  · rename_i id _
    split
    · exact .inl rfl
    · rename_i item first
      split
      · rename_i owner user shown asked
        split
        · exact .inl rfl
        · rename_i same
          -- The owner that is shown and the user of the token are one text.
          obtain rfl := not_not.mp same
          have other : bytes "owner_id" ≠ bytes "location" := by decide
          obtain ⟨row, member, cell, holds⟩ :=
            PgSqlModel.exists_row_of_where declared first other shown
          cases changes : change id with
          | none => exact .inl rfl
          | some result =>
              have has := (holds_id_iff.mp holds).1
              exact .inr ⟨id, result.1, result.2, changes, rfl, row, member, has, _, asked, cell⟩
      · exact .inl rfl

theorem updateItem_writes (declared : model.Declared) :
    OwnerWrites server token rows (updateItem model server rows json token).2 := by
  rcases changeItem_cases declared fun id => (valuesOf json).map (model.update server rows id) with
    same | ⟨id, answer, after, changes, same, owned⟩
  · exact .inl same
  · obtain ⟨values, -, updates⟩ := Option.map_eq_some_iff.mp changes
    rw [OwnerWrites, updateItem, same]
    have cases := @PgSqlModel.update_cases model server rows declared id values
    rw [updates] at cases
    rcases cases with same | ⟨cells, -, writes⟩
    · exact .inl same
    · exact .inr ⟨id, cells, writes, owned⟩

theorem deleteItem_writes (declared : model.Declared) :
    OwnerWrites server token rows (deleteItem model server rows json token).2 := by
  rcases changeItem_cases declared fun id => some (model.delete server rows id) with
    same | ⟨id, answer, after, changes, same, owned⟩
  · exact .inl same
  · rw [OwnerWrites, deleteItem, same]
    have cases := @PgSqlModel.delete_cases model server rows declared id
    rw [Option.some.inj changes] at cases
    rcases cases with same | ⟨cells, -, writes⟩
    · exact .inl same
    · exact .inr ⟨id, cells, writes, owned⟩

/-- The rows with the id of a checked item are that item. -/
theorem OwnerWrites.changesOnly (writes : OwnerWrites server token rows after)
    (keyed : PrimaryKey rows) : ChangesOnly (Owns token) rows after := by
  rcases writes with rfl | ⟨id, cells, writes, row, member, has, owns⟩
  · exact ChangesOnly.refl _ _
  · apply writes.changesOnly
    intro other otherMember otherHas
    rwa [keyed.eq_of_hasId otherMember member otherHas has]

theorem OwnerWrites.keyed (writes : OwnerWrites server token rows after)
    (schema : ∀ rows, server.accepts rows = true → PrimaryKey rows) (keyed : PrimaryKey rows) :
    PrimaryKey after := by
  rcases writes with rfl | ⟨id, cells, writes, -⟩
  · exact keyed
  · exact schema _ writes.accepted

/-- What is erased from the request is not among its values. -/
theorem valuesOf_eraseId (json : JsonObject) (values : List (Bytes × JsonObject)) :
    valuesOf (eraseId json values) = valuesOf json := by
  have other : bytes "id" ≠ bytes "values" := by decide
  unfold eraseId
  split
  · rw [valuesOf, eraseMember, KeyedList.get?_erase, if_neg other]
    rfl
  · rfl

theorem get?_hashPassword {values hashed : List (Bytes × JsonObject)}
    (hashes : hashPassword security values = .ok hashed) :
    KeyedList.get? hashed (bytes "id") = KeyedList.get? values (bytes "id") := by
  have other : bytes "password" ≠ bytes "id" := by decide
  unfold hashPassword at hashes
  split at hashes
  · cases hashes
    rfl
  · split at hashes
    · cases hashes
    · cases hashes
      exact KeyedList.get?_set_of_ne _ other _

/-- Nothing is written, or the user with the token's id; the id that is written
is the one among the values. -/
theorem updateUser_cases :
    (updateUser security server rows json token).2 = rows ∨
      ∃ id values cells, token.getStr (bytes "id") = some id ∧ valuesOf json = some values ∧
        Writes server id cells rows (updateUser security server rows json token).2 ∧
        ∀ cell ∈ KeyedList.get? cells (bytes "id"), ∃ given value,
          KeyedList.get? values (bytes "id") = some given ∧
          server.cast (bytes "id") given.stringValue = some value ∧ cell = some value := by
  unfold updateUser
  split
  · exact .inl rfl
  · rename_i values found
    obtain ⟨asked, present, kept⟩ := Option.bind_eq_some_iff.mp found
    -- The values that are written still have the id that was asked for.
    rw [valuesOf_eraseId] at kept
    split
    · exact .inl rfl
    · exact .inl rfl
    · rename_i hashed id hashes named
      rcases PgSqlModel.update_cases PgSqlModel.users_declared id hashed with
        same | ⟨cells, assigns, writes⟩
      · exact .inl same
      · refine .inr ⟨id, values, cells, named, kept, writes, fun cell found => ?_⟩
        obtain ⟨given, value, member, reads, same⟩ := PgSqlModel.exists_given assigns found
        exact ⟨given, value, (get?_hashPassword hashes).symm.trans member, reads, same⟩

/-- Nothing is written, or the user with the id of the token. -/
def UserWrites (server : Server) (token : JsonObject) (rows after : List Row) : Prop :=
  after = rows ∨ ∃ id cells, token.getStr (bytes "id") = some id ∧ Writes server id cells rows after

theorem updateUser_writes :
    UserWrites server token rows (updateUser security server rows json token).2 := by
  rcases @updateUser_cases security server rows json token with
    same | ⟨id, values, cells, named, -, writes, -⟩
  · exact .inl same
  · exact .inr ⟨id, cells, named, writes⟩

theorem UserWrites.changesOnly (writes : UserWrites server token rows after) :
    ChangesOnly (IsUser server token) rows after := by
  rcases writes with rfl | ⟨id, cells, named, writes⟩
  · exact ChangesOnly.refl _ _
  · exact writes.changesOnly fun row _ has => ⟨id, named, has⟩

theorem UserWrites.keyed (writes : UserWrites server token rows after)
    (schema : ∀ rows, server.accepts rows = true → PrimaryKey rows) (keyed : PrimaryKey rows) :
    PrimaryKey after := by
  rcases writes with rfl | ⟨id, cells, -, writes⟩
  · exact keyed
  · exact schema _ writes.accepted

/-- The values have an id that is read as another one than the token's. -/
def GivesOtherId (server : Server) (json token : JsonObject) : Prop :=
  ∃ values given value id, valuesOf json = some values ∧
    KeyedList.get? values (bytes "id") = some given ∧
    server.cast (bytes "id") given.stringValue = some value ∧
    token.getStr (bytes "id") = some id ∧ server.cast (bytes "id") id ≠ some value

theorem updateUser_ids (keeps : ¬ GivesOtherId server json token) :
    (updateUser security server rows json token).2.map (Row.cell · (bytes "id")) =
      rows.map (Row.cell · (bytes "id")) := by
  rcases @updateUser_cases security server rows json token with
    same | ⟨id, values, cells, named, asked, writes, given⟩
  · rw [same]
  · apply writes.column
    intro row _ has cell found
    obtain ⟨member, value, present, reads, rfl⟩ := given cell found
    obtain ⟨own, ownReads, holds⟩ := has
    have equal : server.cast (bytes "id") id = some value := by
      by_contra other
      exact keeps ⟨values, member, value, id, asked, present, reads, named, other⟩
    rw [holds, ← ownReads, equal]

end Handlers

section Runs

/-- The ids of the rows of each table. -/
def ids (database : Database) : Tables (List (Option Bytes)) where
  users := database.users.map (Row.cell · (bytes "id"))
  threads := database.threads.map (Row.cell · (bytes "id"))
  messages := database.messages.map (Row.cell · (bytes "id"))
  poi := database.poi.map (Row.cell · (bytes "id"))

structure Keyed (database : Database) : Prop where
  users : PrimaryKey database.users
  threads : PrimaryKey database.threads
  messages : PrimaryKey database.messages
  poi : PrimaryKey database.poi

/-- The constraints of the tables hold after every statement. -/
structure Schema (servers : Tables Server) : Prop where
  users : ∀ rows, servers.users.accepts rows = true → PrimaryKey rows
  threads : ∀ rows, servers.threads.accepts rows = true → PrimaryKey rows
  messages : ∀ rows, servers.messages.accepts rows = true → PrimaryKey rows
  poi : ∀ rows, servers.poi.accepts rows = true → PrimaryKey rows

/-- A row is changed only for its owner, and a user only for that user. -/
structure OwnersOnly (request : Request) (before after : Database) : Prop where
  users : ChangesOnly (IsUser request.servers.users request.token) before.users after.users
  threads : ChangesOnly (Owns request.token) before.threads after.threads
  messages : ChangesOnly (Owns request.token) before.messages after.messages
  poi : ChangesOnly (Owns request.token) before.poi after.poi

/-- Only what is owned is changed, and `update_user` changes no id. -/
structure Rightful (request : Request) (before after : Database) : Prop where
  owners : OwnersOnly request before after
  ids : request.handler = .updateUser → Jph2.ids after = Jph2.ids before

/-- A request for which `update_user` writes an id that is not the token's. -/
def Renumbers (request : Request) : Prop :=
  request.handler = .updateUser ∧
    GivesOtherId request.servers.users request.json request.token

/-- The requests to tables with their constraints. -/
def Served (_ : Database) (request : Request) : Prop :=
  Schema request.servers

/-- The requests that do not give a user another id. -/
def Kept (_ : Database) (request : Request) : Prop :=
  Schema request.servers ∧ ¬ Renumbers request

variable {security : Security} {database : Database} {request : Request}

/-- What a request writes to each table. -/
structure Handled (request : Request) (before after : Database) : Prop where
  users : UserWrites request.servers.users request.token before.users after.users
  threads : OwnerWrites request.servers.threads request.token before.threads after.threads
  messages : OwnerWrites request.servers.messages request.token before.messages after.messages
  poi : OwnerWrites request.servers.poi request.token before.poi after.poi

theorem Handled.refl (request : Request) (database : Database) :
    Handled request database database :=
  ⟨.inl rfl, .inl rfl, .inl rfl, .inl rfl⟩

/-- A handler writes to its own table. -/
theorem handle_writes : Handled request database (handle security database request).2 := by
  have same := Handled.refl request database
  unfold handle
  cases request.handler with
  | updateUser => exact { same with users := updateUser_writes }
  | updateThread => exact { same with threads := updateItem_writes PgSqlModel.threads_declared }
  | deleteThread => exact { same with threads := deleteItem_writes PgSqlModel.threads_declared }
  | updateMessage => exact { same with messages := updateItem_writes PgSqlModel.messages_declared }
  | deleteMessage => exact { same with messages := deleteItem_writes PgSqlModel.messages_declared }
  | updatePoi => exact { same with poi := updateItem_writes PgSqlModel.poi_declared }
  | deletePoi => exact { same with poi := deleteItem_writes PgSqlModel.poi_declared }

theorem handle_owners (keyed : Keyed database) :
    OwnersOnly request database (handle security database request).2 := by
  have writes : Handled request database (handle security database request).2 := handle_writes
  constructor
  · exact writes.users.changesOnly
  · exact writes.threads.changesOnly keyed.threads
  · exact writes.messages.changesOnly keyed.messages
  · exact writes.poi.changesOnly keyed.poi

theorem handle_keyed (schema : Schema request.servers) (keyed : Keyed database) :
    Keyed (handle security database request).2 := by
  have writes : Handled request database (handle security database request).2 := handle_writes
  constructor
  · exact writes.users.keyed schema.users keyed.users
  · exact writes.threads.keyed schema.threads keyed.threads
  · exact writes.messages.keyed schema.messages keyed.messages
  · exact writes.poi.keyed schema.poi keyed.poi

theorem handle_ids (keeps : ¬ Renumbers request) (update : request.handler = .updateUser) :
    ids (handle security database request).2 = ids database := by
  have kept : ¬ GivesOtherId request.servers.users request.json request.token :=
    fun other => keeps ⟨update, other⟩
  unfold handle
  rw [update]
  simp only [ids, updateUser_ids kept]

/-- The primary keys hold in every state of a run. -/
theorem keyed_run {start : Database} {requests : List Request} (keyed : Keyed start)
    (run : Run (next security) Served start requests database) : Keyed database := by
  apply run.invariant _ keyed
  intro first request last holds schema steps
  cases steps
  exact handle_keyed schema holds

/-- Whatever has been requested before, only owners change their rows. -/
theorem owners_run {start : Database} {requests : List Request} (keyed : Keyed start)
    (run : Run (next security) Served start requests database) (request : Request) :
    OwnersOnly request database (handle security database request).2 :=
  handle_owners (keyed_run keyed run)

/-- In a run whose requests do not give a user another id, every request
changes only what its user owns, and no id of a user. -/
theorem changes_rightful {start : Database} {requests : List Request} (keyed : Keyed start)
    (run : Run (next security) Kept start requests database) (allowed : Kept database request) :
    Rightful request database (handle security database request).2 := by
  have served : Run (next security) Served start requests database :=
    run.mono fun _ _ kept => kept.1
  exact ⟨owners_run keyed served request, handle_ids allowed.2⟩

end Runs

section Example

namespace Sample

/-- A server that enforces the primary key. -/
def server (model : PgSqlModel) : Server :=
  { PgSqlModel.clocked model with accepts := fun rows => decide (PrimaryKey rows) }

def servers : Tables Server :=
  ⟨server users, server threads, server messages, server poi⟩

theorem schema : Schema servers :=
  ⟨fun _ accepts => of_decide_eq_true accepts, fun _ accepts => of_decide_eq_true accepts,
    fun _ accepts => of_decide_eq_true accepts, fun _ accepts => of_decide_eq_true accepts⟩

/-- A user who owns nothing. -/
def alone : Database where
  users := [⟨0, KeyedList.get? [(bytes "id", bytes "1"), (bytes "username", bytes "ada"),
    (bytes "password", bytes "secret"), (bytes "email", bytes "a@b"),
    (bytes "first_name", bytes "A"), (bytes "last_name", bytes "L"), (bytes "color", bytes "gold"),
    (bytes "verified", bytes "f"), (bytes "modified", bytes "2018-01-01"),
    (bytes "created", bytes "2018-01-01")]⟩]
  threads := []
  messages := []
  poi := []

theorem keyed_alone : Keyed alone :=
  ⟨by decide, by decide, by decide, by decide⟩

/-- The user with a thread. -/
def database : Database :=
  { alone with
    threads := [⟨0, KeyedList.get? [(bytes "id", bytes "5"), (bytes "owner_id", bytes "1"),
      (bytes "name", bytes "news"), (bytes "description", bytes "today"),
      (bytes "modified", bytes "2018-01-01"), (bytes "created", bytes "2018-01-01")]⟩] }

theorem keyed : Keyed database :=
  ⟨by decide, by decide, by decide, by decide⟩

/-- The request of the user to write one value. -/
def request (handler : Handler) (key value : Bytes) : Request where
  servers := servers
  handler := handler
  json := ⟨.object, [], [(bytes "id", .ofString (bytes "5")),
    (bytes "values", ⟨.object, [], [(key, .ofString value)], []⟩)], []⟩
  token := ⟨.object, [], [(bytes "id", .ofString (bytes "1"))], []⟩

/-- The parts of the libraries, which do not matter for the tables. -/
def security : Security where
  hashValueArgon2d password := password
  crypto := ⟨id, some, id, id, id⟩

end Sample

/-- The owner of a thread renames it, and then writes another address. -/
theorem changes_rightful_sample :
    Rightful (Sample.request .updateUser (bytes "email") (bytes "c@d"))
      (handle Sample.security Sample.database
        (Sample.request .updateThread (bytes "name") (bytes "old"))).2
      (handle Sample.security (handle Sample.security Sample.database
        (Sample.request .updateThread (bytes "name") (bytes "old"))).2
        (Sample.request .updateUser (bytes "email") (bytes "c@d"))).2 := by
  refine changes_rightful Sample.keyed (.single ⟨Sample.schema, ?_⟩ rfl) ⟨Sample.schema, ?_⟩
  · rintro ⟨other, -⟩
    cases other
  · rintro ⟨-, values, given, value, id, found, present, -⟩
    cases found
    cases present

/-- A user who owns nothing gives itself the id 9. -/
theorem not_rightful :
    ¬ ∀ (security : Security) (start database : Database) (requests : List Request)
      (request : Request), Keyed start → Run (next security) Served start requests database →
        Served database request →
          Rightful request database (handle security database request).2 := by
  intro always
  have rightful := always Sample.security Sample.alone Sample.alone []
    (Sample.request .updateUser (bytes "id") (bytes "9")) Sample.keyed_alone (.nil _) Sample.schema
  have users := congrArg Tables.users (rightful.ids rfl)
  revert users
  decide +kernel

end Example

end Jph2

end Libjaypea
