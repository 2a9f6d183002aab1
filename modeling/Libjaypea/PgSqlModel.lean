import Libjaypea.HttpDispatch
import Libjaypea.Sql

/-!
# The PostgreSQL model

`PgSqlModel` with the statements that it sends: each text that the source
splices into a statement is read by the lexer, and `txn.quote` yields one
literal.  An exception that a function does not catch is `none`.
-/

namespace Libjaypea

open Sql (Token Row Record Server)

def colAuto : UInt8 := 1

def colHidden : UInt8 := 2

structure Column where
  name : Bytes
  flags : UInt8
  deriving DecidableEq

def Column.hidden (column : Column) : Bool :=
  column.flags &&& colHidden ≠ 0

structure PgSqlModel where
  table : Bytes
  cols : List Column

namespace PgSqlModel

/-- A piece of the text of a statement. -/
def sql (text : String) : List Token :=
  Sql.lex (bytes text)

def quote (value : Bytes) : List Token :=
  [.literal value]

def error (message : Bytes) : JsonObject :=
  (JsonObject.new .object).setMember (bytes "error") (.ofString message)

def badData : JsonObject :=
  error (bytes "You provided incomplete or bad data.")

/-- `row[name]`, which throws when the result has no such column. -/
def field (row : Record) (name : Bytes) : Option (Option Bytes) :=
  KeyedList.get? row.fields name

/-- `res[0][0].as<const char*>()`, which throws without a row and on `NULL`. -/
def firstField : List Record → Option Bytes
  | ⟨_, (_, value) :: _⟩ :: _ => value
  | _ => none

variable (model : PgSqlModel)

def hasColumn (name : Bytes) : Bool :=
  model.cols.any fun column => column.name == name

/-- The members of a row, column by column. -/
def rowMembers (row : Record) : List Column → JsonObject → Option JsonObject
  | [], json => some json
  | column :: cols, json =>
      if column.hidden then rowMembers row cols json
      else
        match field row column.name with
        | none => none
        | some none => rowMembers row cols json
        | some (some value) => rowMembers row cols (json.setMember column.name (.ofString value))

def rowToJson (row : Record) : Option JsonObject :=
  rowMembers row model.cols (.new .object)

def resultToJson (res : List Record) : Option JsonObject :=
  (res.mapM model.rowToJson).map fun rows => { JsonObject.new .array with arrayValues := rows }

section Queries

variable (server : Server) (rows : List Row)

/-- The records that a query returns. -/
def query (tokens : List Token) : Option (List Record) :=
  (Sql.exec server rows tokens).map Prod.fst

def allText : List Token :=
  let check := if model.hasColumn (bytes "deleted") then sql " WHERE deleted IS NULL" else []
  sql "SELECT * FROM " ++ Sql.lex model.table ++ check ++ sql ";"

def all : Option JsonObject :=
  (query server rows model.allText).bind model.resultToJson

/-- The loop that lists the visible columns. -/
def colList : List Column → List Token
  | [] => []
  | column :: cols =>
      (if column.hidden then []
      else
        (if column.name = bytes "location" then sql "ST_AsGeoJSON(location) as location"
        else Sql.lex column.name) ++
          if cols ≠ [] then sql ", " else []) ++
        colList cols

def whereText (key value : Bytes) : List Token :=
  let check := if model.hasColumn (bytes "deleted") then sql " AND deleted IS NULL" else []
  let check := check ++
    if model.hasColumn (bytes "created") then sql " ORDER BY created DESC;" else []
  sql "SELECT " ++ colList model.cols ++ sql " FROM " ++ Sql.lex model.table ++ sql " WHERE " ++
    Sql.lex key ++ sql " = " ++ quote value ++ check

def where_ (key value : Bytes) : JsonObject :=
  if !model.hasColumn key then error (bytes "Bad key.")
  else ((query server rows (model.whereText key value)).bind model.resultToJson).getD badData

def accessText (key value : Bytes) : List Token :=
  let check := if model.hasColumn (bytes "deleted") then sql " AND deleted IS NULL" else []
  sql "SELECT * FROM " ++ Sql.lex model.table ++ sql " WHERE " ++ Sql.lex key ++ sql " = " ++
    quote value ++ check ++ sql ";"

/-- The answer to the rows that a login has found; `none` when it throws. -/
def login (password : Bytes) : List Record → Option JsonObject
  | [] => some (error (bytes "Bad username."))
  | row :: _ =>
      (field row (bytes "password")).bind fun cell =>
        cell.bind fun stored =>
          if stored = password then model.rowToJson row
          else some (error (bytes "Bad password."))

def access (key value password : Bytes) : JsonObject :=
  ((query server rows (model.accessText key value)).bind (model.login password)).getD
    (error (bytes "Bad data."))

end Queries

section Changes

variable (server : Server) (rows : List Row)

/-- The object with the id that a statement returns. -/
def idResult (res : List Record) : Option JsonObject :=
  (firstField res).map fun id => (JsonObject.new .object).setMember (bytes "id") (.ofString id)

/-- The answer to a statement that returns an id, and the rows afterwards. -/
def change (tokens : List Token) : JsonObject × List Row :=
  match Sql.exec server rows tokens with
  | none => (badData, rows)
  | some (res, rows) => ((idResult res).getD badData, rows)

def deleteText (id : Bytes) : List Token :=
  let check := if model.hasColumn (bytes "id") then sql " RETURNING id" else []
  sql "UPDATE " ++ Sql.lex model.table ++ sql " SET deleted = now() WHERE id = " ++ quote id ++
    check ++ sql ";"

def delete (id : Bytes) : JsonObject × List Row :=
  change server rows (model.deleteText id)

/-- The texts, with commas between them. -/
def listed (texts : List (List Token)) : List Token :=
  (sql ", ").intercalate texts

/-- The text of the location, and the values with a placeholder for it. -/
def locate (values : List (Bytes × JsonObject)) :
    Option (List Token × List (Bytes × JsonObject)) :=
  if model.hasColumn (bytes "location") then
    match KeyedList.get? values (bytes "longitude"), KeyedList.get? values (bytes "latitude") with
    | some longitude, some latitude =>
        let location := sql "ST_GeographyFromText(" ++
          quote (bytes "POINT(" ++ longitude.stringValue ++ [ch ' '] ++ latitude.stringValue ++
            bytes ")") ++ sql ")"
        let values := KeyedList.erase (KeyedList.erase values (bytes "longitude")) (bytes "latitude")
        some (location, KeyedList.set values (bytes "location") (.ofString (bytes "placeholder")))
    | _, _ => none
  else some ([], values)

def insertText (location : List Token) (values : List (Bytes × JsonObject)) : List Token :=
  sql "INSERT INTO " ++ Sql.lex model.table ++ sql " (" ++
    listed (values.map fun entry => Sql.lex entry.1) ++ sql ") VALUES (" ++
    listed (values.map fun entry =>
      if entry.1 = bytes "location" then location else quote entry.2.stringValue) ++
    if model.hasColumn (bytes "id") then sql ") RETURNING id;" else sql ");"

/-- `none` stands for the null pointer that is returned without an id. -/
def insert (values : List (Bytes × JsonObject)) : Option JsonObject × List Row :=
  match model.locate values with
  | none => (some (error (bytes "Missing location information.")), rows)
  | some (location, values) =>
      if values.any (!model.hasColumn ·.1) then (some (error (bytes "Bad key.")), rows)
      else if model.hasColumn (bytes "id") then
        let (answer, rows) := change server rows (model.insertText location values)
        (some answer, rows)
      else
        match Sql.exec server rows (model.insertText location values) with
        | none => (some badData, rows)
        | some (_, rows) => (none, rows)

def updateText (id : Bytes) (values : List (Bytes × JsonObject)) : List Token :=
  sql "UPDATE " ++ Sql.lex model.table ++ sql " SET " ++
    (if model.hasColumn (bytes "modified") then sql "modified = now(), " else []) ++
    listed (values.map fun entry => Sql.lex entry.1 ++ sql " = " ++ quote entry.2.stringValue) ++
    sql " WHERE id = " ++ quote id ++ sql " RETURNING id;"

def update (id : Bytes) (values : List (Bytes × JsonObject)) : JsonObject × List Row :=
  if values.any (!model.hasColumn ·.1) then (error (bytes "Bad key."), rows)
  else change server rows (model.updateText id values)

end Changes

end PgSqlModel

end Libjaypea
