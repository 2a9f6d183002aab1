import Libjaypea.ChangedRows
import Libjaypea.TokenTrip

/-!
# The handlers of jph2 that change rows

What `update_user` and the handlers that update and delete threads, messages
and points of interest answer, and what they leave in the tables.  An answer is
`none` where an exception leaves the handler or it reads what is not there.
-/

namespace Libjaypea

namespace Jph2

open JsonObject
open Sql (Row Server)

/-- `INSUFFICIENT_ACCESS`. -/
def insufficientAccess : Bytes :=
  bytes "\x7b\"error\":\"Insufficient access.\"\x7d"

/-- `NO_SUCH_ITEM`. -/
def noSuchItem : Bytes :=
  bytes "\x7b\"error\":\"That record doesn't exist.\"\x7d"

def passwordTooShort : Bytes :=
  bytes "\x7b\"error\":\"Password must have at least 16 characters.\"\x7d"

/-- The hash of passwords and the encryption of tokens. -/
structure Security where
  hashValueArgon2d : Bytes → Bytes
  crypto : CryptoPP

/-- `json->objectValues["values"]->objectValues`. -/
def valuesOf (json : JsonObject) : Option (List (Bytes × JsonObject)) :=
  (KeyedList.get? json.objectValues (bytes "values")).map objectValues

section Users

variable (security : Security)

/-- The id that is found among the values is erased beside them. -/
def eraseId (json : JsonObject) (values : List (Bytes × JsonObject)) : JsonObject :=
  if KeyedList.contains values (bytes "id") then json.eraseMember (bytes "id") else json

/-- The values with the hash of their password, or the answer to a short one. -/
def hashPassword (values : List (Bytes × JsonObject)) :
    Except Bytes (List (Bytes × JsonObject)) :=
  match KeyedList.get? values (bytes "password") with
  | none => .ok values
  | some password =>
      if password.stringValue.length < 16 then .error passwordTooShort
      else .ok (KeyedList.set values (bytes "password")
        { password with stringValue := security.hashValueArgon2d password.stringValue })

/-- The answer with the token of a user. -/
def newToken (user : JsonObject) : Bytes :=
  Token.updateUserResponse (SymmetricEncryptor.encrypt security.crypto (stringify false 0 user))

def updateUser (server : Server) (rows : List Row) (json token : JsonObject) :
    Option Bytes × List Row :=
  match (valuesOf json).bind fun values => valuesOf (eraseId json values) with
  | none => (none, rows)
  | some values =>
      match hashPassword security values, token.getStr (bytes "id") with
      | .error answer, _ => (some answer, rows)
      | .ok _, none => (none, rows)
      | .ok values, some id =>
          -- The rows are written before it is known whether there is a user to answer with.
          let rows := (PgSqlModel.users.update server rows id values).2
          let user := (PgSqlModel.users.where_ server rows (bytes "id") id).arrayValues.head?
          (user.map (newToken security), rows)

end Users

section Items

variable (model : PgSqlModel) (server : Server) (rows : List Row) (json token : JsonObject)

/-- The check of the owner, in front of a change of the item with the id. -/
def changeItem (change : Bytes → Option (JsonObject × List Row)) : Option Bytes × List Row :=
  match json.getStr (bytes "id") with
  | none => (none, rows)
  | some id =>
      match (model.where_ server rows (bytes "id") id).arrayValues.head? with
      | none => (some noSuchItem, rows)
      | some item =>
          match item.getStr (bytes "owner_id"), token.getStr (bytes "id") with
          | some owner, some user =>
              if owner ≠ user then (some insufficientAccess, rows)
              else
                match change id with
                | none => (none, rows)
                | some (answer, rows) => (some (stringify false 0 answer), rows)
          | _, _ => (none, rows)

def updateItem : Option Bytes × List Row :=
  changeItem model server rows json token fun id =>
    (valuesOf json).map (model.update server rows id)

def deleteItem : Option Bytes × List Row :=
  changeItem model server rows json token fun id => some (model.delete server rows id)

def updateThread := updateItem PgSqlModel.threads

def deleteThread := deleteItem PgSqlModel.threads

def updateMessage := updateItem PgSqlModel.messages

def deleteMessage := deleteItem PgSqlModel.messages

def updatePoi := updateItem PgSqlModel.poi

def deletePoi := deleteItem PgSqlModel.poi

end Items

/-- One value for each table. -/
structure Tables (α : Type) where
  users : α
  threads : α
  messages : α
  poi : α

/-- The rows of the tables. -/
abbrev Database := Tables (List Row)

inductive Handler
  | updateUser
  | updateThread
  | deleteThread
  | updateMessage
  | deleteMessage
  | updatePoi
  | deletePoi
  deriving DecidableEq

/-- A request for a handler, with its token decrypted, and what the server
brings to the statements on each table. -/
structure Request where
  servers : Tables Server
  handler : Handler
  json : JsonObject
  token : JsonObject

/-- The answer of a handler, and what it leaves in the tables. -/
def handle (security : Security) (database : Database) (request : Request) :
    Option Bytes × Database :=
  let json := request.json
  let token := request.token
  match request.handler with
  | .updateUser =>
      let result := updateUser security request.servers.users database.users json token
      (result.1, { database with users := result.2 })
  | .updateThread =>
      let result := updateThread request.servers.threads database.threads json token
      (result.1, { database with threads := result.2 })
  | .deleteThread =>
      let result := deleteThread request.servers.threads database.threads json token
      (result.1, { database with threads := result.2 })
  | .updateMessage =>
      let result := updateMessage request.servers.messages database.messages json token
      (result.1, { database with messages := result.2 })
  | .deleteMessage =>
      let result := deleteMessage request.servers.messages database.messages json token
      (result.1, { database with messages := result.2 })
  | .updatePoi =>
      let result := updatePoi request.servers.poi database.poi json token
      (result.1, { database with poi := result.2 })
  | .deletePoi =>
      let result := deletePoi request.servers.poi database.poi json token
      (result.1, { database with poi := result.2 })

/-- One request after another. -/
def next (security : Security) (database : Database) (request : Request) : Option Database :=
  some (handle security database request).2

end Jph2

end Libjaypea
