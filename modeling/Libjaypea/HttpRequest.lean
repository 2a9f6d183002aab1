import Libjaypea.Json
import Libjaypea.Util

/-!
# HTTP request parsing

`Util::parse_http_request` fills a JSON object from a request text.  Its main
loop is a character machine over the head of the request; a JSON body goes to
`JsonObject::parse` at the cursor the machine leaves, a form body to a second
loop.  `heap` is what lies behind `new_value.c_str()` when the cursor has a
given value, past the terminator of the string.
-/

namespace Libjaypea

open JsonObject

inductive RequestResult
  | http
  | httpApi
  | httpForm
  | api
  deriving DecidableEq, Repr

/-- The local variables of `parse_http_request`, with the object it fills. -/
structure HttpParse where
  requestObj : JsonObject
  it : Nat
  exitHttpParse : Bool
  state : Nat
  newKey : Bytes
  newValue : Bytes

inductive HttpAction
  | next (after : HttpParse)
  /-- `objectValues[new_key]` is parsed from `new_value` first. -/
  | store (resume : JsonObject → HttpParse)

namespace JsonObject

/-- `objectValues[key]->stringValue = value`, on a member that exists. -/
def setStringValue (this : JsonObject) (key value : Bytes) : JsonObject :=
  match KeyedList.get? this.objectValues key with
  | none => this
  | some member =>
      { this with
        objectValues := KeyedList.set this.objectValues key { member with stringValue := value } }

/-- The member a write to `key` starts from: a new one unless it exists. -/
def memberOrNew (this : JsonObject) (key : Bytes) : JsonObject :=
  (KeyedList.get? this.objectValues key).getD (new .notype)

/-- A header value: the member becomes a string. -/
def storeString (this : JsonObject) (key value : Bytes) : JsonObject :=
  { this with
    objectValues := KeyedList.set this.objectValues key
      { this.memberOrNew key with type := .string, stringValue := value } }

/-- A query or form value: the member is parsed from the value, and holds it
as a string when the value contains no JSON. -/
def storeValue (stale : Memory) (this : JsonObject) (key value : Bytes) (fuel : Nat) :
    Option JsonObject :=
  (parse (Memory.ofString stale value) { this.memberOrNew key with type := .notype } 1 fuel).map
    fun result =>
      let member := result.1
      { this with
        objectValues := KeyedList.set this.objectValues key
          (if member.type = .notype then
            { member with type := .string, stringValue := value }
          else member) }

end JsonObject

namespace HttpParse

/-- `!strict_compare_inequal(request, literal, n)` with the length of the literal as `n`. -/
def requestStartsWith (memory : Memory) (request : Nat) (literal : Bytes) : Bool :=
  Util.strictCompareInequal (fun i => memory (request + i))
    (fun i => (literal ++ [0])[i]?.getD 0) literal.length 0 = some false

/-- The method that the request starts with, and the cursor behind its slash. -/
def httpStart (memory : Memory) (request : Nat) : Option (Bytes × Nat) :=
  if requestStartsWith memory request (bytes "GET /") then some (bytes "GET", request + 5)
  else if requestStartsWith memory request (bytes "HEAD /") then some (bytes "HEAD", request + 6)
  else if requestStartsWith memory request (bytes "POST /") then some (bytes "POST", request + 6)
  else if requestStartsWith memory request (bytes "DELETE /") then
    some (bytes "DELETE", request + 8)
  else if requestStartsWith memory request (bytes "PUT /") then some (bytes "PUT", request + 5)
  else none

/-- States 1 and 3, 4, 6: two escapes are known, every other `%` and every carriage return is dropped. -/
def appendValue (memory : Memory) (parse : HttpParse) : HttpParse :=
  let it := parse.it
  if memory it = ch '%' then
    if memory (it + 1) = ch '2' ∧ memory (it + 2) = ch '6' then
      { parse with it := it + 2, newValue := parse.newValue ++ [ch '"'] }
    else if memory (it + 1) = ch '0' ∧ memory (it + 2) = ch 'A' then
      { parse with it := it + 2, newValue := parse.newValue ++ [ch '\n'] }
    else parse
  else if memory it ≠ ch '\r' then { parse with newValue := parse.newValue ++ [memory it] }
  else parse

/-- The second `switch`, reached by a `break` from the first one. -/
def collect (memory : Memory) (parse : HttpParse) : HttpParse :=
  let byte := memory parse.it
  if parse.state = 3 then
    if byte = ch '+' then { parse with newValue := parse.newValue ++ [ch ' '] }
    else parse.appendValue memory
  else if parse.state = 0 ∨ parse.state = 1 ∨ parse.state = 4 ∨ parse.state = 6 then
    parse.appendValue memory
  else if parse.state = 2 ∨ parse.state = 5 then
    { parse with newKey := parse.newKey ++ [byte] }
  else
    let state := if byte = ch '\r' ∨ byte = ch '\n' then parse.state + 1 else parse.state
    { parse with
      state := state
      exitHttpParse := if 8 ≤ state then true else parse.exitHttpParse }

/-- What one pass through the body of the main loop does. -/
def action (memory : Memory) (parse : HttpParse) : HttpAction :=
  let byte := memory parse.it
  if byte = ch ' ' ∧ parse.state = 1 then
    if parse.newValue.length = 0 then .next { parse with exitHttpParse := true }
    else
      .next { parse with
        requestObj := parse.requestObj.setStringValue (bytes "route") parse.newValue
        state := 4
        newValue := [] }
  else if byte = ch ' ' ∧ parse.state = 2 then .next { parse with state := 4 }
  else if byte = ch ' ' ∧ parse.state = 3 then
    .store fun requestObj => { parse with requestObj := requestObj, state := 4, newValue := [] }
  else if byte = ch '?' ∧ parse.state = 1 then
    .next { parse with
      requestObj := parse.requestObj.setStringValue (bytes "route") parse.newValue
      newKey := []
      state := 2 }
  else if byte = ch '=' ∧ parse.state = 2 then
    .next { parse with newValue := [], state := 3 }
  else if byte = ch '&' ∧ parse.state = 3 then
    .store fun requestObj => { parse with requestObj := requestObj, newKey := [], state := 2 }
  else if byte = ch '\n' ∧ parse.state = 4 then
    .next { parse with
      requestObj := parse.requestObj.setStringValue (bytes "protocol") parse.newValue
      newKey := []
      state := 5 }
  else if byte = ch '\n' ∧ parse.state = 5 then
    .next (collect memory { parse with state := 7 })
  else if byte = ch '\n' ∧ parse.state = 6 then
    .next { parse with
      requestObj := parse.requestObj.storeString parse.newKey parse.newValue
      newKey := []
      state := 5 }
  else if byte = ch ':' ∧ parse.state = 5 then
    .next { parse with it := parse.it + 1, newValue := [], state := 6 }
  else .next (parse.collect memory)

/-- The body of the main loop; `heap` gives the bytes behind `new_value.c_str()`. -/
def step (memory : Memory) (heap : Nat → Memory) (parse : HttpParse) (fuel : Nat) :
    Option HttpParse :=
  match parse.action memory with
  | .next after => some after
  | .store resume =>
      (parse.requestObj.storeValue (heap parse.it) parse.newKey parse.newValue fuel).map resume

/-- The increment of the loop. -/
def advance (parse : HttpParse) : HttpParse :=
  { parse with it := parse.it + 1 }

def loop (memory : Memory) (heap : Nat → Memory) : Nat → HttpParse → Option HttpParse
  | 0, _ => none
  | fuel + 1, parse =>
      if memory parse.it = 0 then some parse
      else if parse.exitHttpParse then some parse
      else (parse.step memory heap fuel).bind fun after => loop memory heap fuel after.advance

/-- One pass through the body of the loop over a form. -/
def formStep (memory : Memory) (heap : Nat → Memory) (parse : HttpParse) (fuel : Nat) :
    Option HttpParse :=
  let byte := memory parse.it
  if byte = ch '&' then
    (parse.requestObj.storeValue (heap parse.it) parse.newKey parse.newValue fuel).map
      fun requestObj =>
        { parse with requestObj := requestObj, state := 1, newKey := [], newValue := [] }
  else if byte = ch '=' then some { parse with state := 2 }
  else if parse.state = 1 then some { parse with newKey := parse.newKey ++ [byte] }
  else if parse.state = 2 then some { parse with newValue := parse.newValue ++ [byte] }
  else some parse

def formLoop (memory : Memory) (heap : Nat → Memory) : Nat → HttpParse → Option HttpParse
  | 0, _ => none
  | fuel + 1, parse =>
      if memory parse.it = 0 then some parse
      else
        (parse.formStep memory heap fuel).bind fun after =>
          formLoop memory heap fuel after.advance

/-- A form body: all its pairs, the last one behind the loop. -/
def parseForm (memory : Memory) (heap : Nat → Memory) (requestObj : JsonObject) (it : Nat)
    (fuel : Nat) : Option JsonObject :=
  (formLoop memory heap fuel ⟨requestObj, it, false, 1, [], []⟩).bind fun parse =>
    if parse.state = 2 then
      parse.requestObj.storeValue (heap parse.it) parse.newKey parse.newValue fuel
    else some parse.requestObj

/-- What follows the main loop: the content type decides how the body is parsed. -/
def parseBody (memory : Memory) (heap : Nat → Memory) (parse : HttpParse) (fuel : Nat) :
    Option (RequestResult × JsonObject) :=
  let isString := parse.requestObj.hasObj (bytes "Content-Type") .string
  let contentType := parse.requestObj.getStr (bytes "Content-Type")
  if isString ∧ contentType = some (bytes "application/json") then
    (JsonObject.parse memory parse.requestObj parse.it fuel).map fun result => (.httpApi, result.1)
  else if isString ∧ contentType = some (bytes "application/x-www-form-urlencoded") then
    (parseForm memory heap parse.requestObj parse.it fuel).map fun requestObj =>
      (.httpForm, requestObj)
  else some (.http, parse.requestObj)

end HttpParse

/-- `Util::parse_http_request`: the kind of the request and the filled object. -/
def parseHttpRequest (memory : Memory) (heap : Nat → Memory) (request : Nat)
    (requestObj : JsonObject) (fuel : Nat) : Option (RequestResult × JsonObject) :=
  let requestObj :=
    { requestObj with
      objectValues :=
        KeyedList.set
          (KeyedList.set
            (KeyedList.set requestObj.objectValues (bytes "method") (ofString (bytes "GET")))
            (bytes "route") (new .string))
          (bytes "protocol") (ofString (bytes "JPON")) }
  match HttpParse.httpStart memory request with
  | none => (parse memory requestObj request fuel).map fun result => (.api, result.1)
  | some (method, it) =>
      let requestObj := requestObj.setStringValue (bytes "method") method
      (HttpParse.loop memory heap fuel ⟨requestObj, it, false, 1, [], [ch '/']⟩).bind
        fun parse => parse.parseBody memory heap fuel

end Libjaypea
