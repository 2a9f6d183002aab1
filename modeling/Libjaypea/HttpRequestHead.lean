import Libjaypea.HttpRequestRun
import Libjaypea.JsonRoundTrip

/-!
# Well-formed HTTP requests

The text of a request head, and what `parse_http_request` makes of it: the
method, the route, the protocol, the query pairs and the headers, and then the
body from its first byte on.
-/

namespace Libjaypea

open Fuelled JsonObject
open StandardJson (Whitespace)

inductive LineEnd
  | lf
  | crlf
  deriving DecidableEq, Repr

def LineEnd.text : LineEnd → Bytes
  | .lf => [ch '\n']
  | .crlf => [ch '\r', ch '\n']

structure HttpHeader where
  name : Bytes
  value : Bytes
  lineEnd : LineEnd

def HttpHeader.text (header : HttpHeader) : Bytes :=
  header.name ++ (ch ':' :: ch ' ' :: (header.value ++ header.lineEnd.text))

/-- What a request says in front of its body. -/
structure HttpHead where
  method : Bytes
  path : Bytes
  query : List (Bytes × Bytes)
  protocol : Bytes
  protocolEnd : LineEnd
  headers : List HttpHeader
  blankEnd : LineEnd

namespace HttpHead

/-- `k=v` pairs, separated by ampersands. -/
def queryText : List (Bytes × Bytes) → Bytes
  | [] => []
  | [(key, value)] => key ++ (ch '=' :: value)
  | (key, value) :: rest => key ++ (ch '=' :: (value ++ (ch '&' :: queryText rest)))

/-- The path without its first slash, and the query. -/
def target (head : HttpHead) : Bytes :=
  head.path ++ if head.query = [] then [] else ch '?' :: queryText head.query

/-- The protocol, the header lines and the blank line. -/
def lines (head : HttpHead) : Bytes :=
  head.protocol ++ (head.protocolEnd.text ++
    (head.headers.flatMap HttpHeader.text ++ head.blankEnd.text))

def text (head : HttpHead) : Bytes :=
  head.method ++ (ch ' ' :: ch '/' :: (head.target ++ (ch ' ' :: head.lines)))

/-- What the request stores besides its method, route and protocol. -/
def stored (head : HttpHead) : List (Bytes × Bytes) :=
  head.query ++ head.headers.map fun header => (header.name, header.value)

def methods : List Bytes :=
  [bytes "GET", bytes "HEAD", bytes "POST", bytes "DELETE", bytes "PUT"]

/-- The members that every request has. -/
def reserved : List Bytes :=
  [bytes "method", bytes "route", bytes "protocol"]

structure WellFormed (head : HttpHead) : Prop where
  method : head.method ∈ methods
  path : ∀ byte ∈ head.path, HttpParse.Plain byte ∧ byte ≠ ch ' ' ∧ byte ≠ ch '?'
  queryKeys : ∀ pair ∈ head.query, ∀ byte ∈ pair.1,
    HttpParse.Plain byte ∧ byte ≠ ch ' ' ∧ byte ≠ ch '=' ∧ byte ≠ ch '&'
  queryValues : ∀ pair ∈ head.query, ∀ byte ∈ pair.2,
    HttpParse.Plain byte ∧ byte ∉ bytes " &+\"\x7b[\\"
  protocol : ∀ byte ∈ head.protocol, HttpParse.Plain byte
  headerNames : ∀ header ∈ head.headers, ∀ byte ∈ header.name,
    HttpParse.Plain byte ∧ byte ≠ ch ':'
  headerValues : ∀ header ∈ head.headers, ∀ byte ∈ header.value, HttpParse.Plain byte
  distinct : (reserved ++ head.stored.map Prod.fst).Nodup

/-- The object that holds exactly the given members, all of them strings. -/
def requestObject (method route protocol : Bytes) (stored : List (Bytes × Bytes)) : JsonObject :=
  ⟨.object, [],
    [(bytes "method", ofString method), (bytes "route", ofString route),
      (bytes "protocol", ofString protocol)] ++
      stored.map fun pair => (pair.1, ofString pair.2), []⟩

def object (head : HttpHead) : JsonObject :=
  requestObject head.method (ch '/' :: head.path) head.protocol head.stored

/-- The value of the stored member `Content-Type`, if there is one. -/
def contentType (head : HttpHead) : Option Bytes :=
  KeyedList.get? head.stored (bytes "Content-Type")

end HttpHead

section Objects

open HttpHead

variable (method route protocol : Bytes) (stored : List (Bytes × Bytes))

theorem setStringValue_route (value : Bytes) :
    (requestObject method route protocol stored).setStringValue (bytes "route") value =
      requestObject method value protocol stored := rfl

theorem keys_requestObject :
    KeyedList.keys (requestObject method route protocol stored).objectValues =
      reserved ++ stored.map Prod.fst := by
  simp [requestObject, KeyedList.keys, reserved, Function.comp_def]

variable {method route protocol stored}

theorem storeString_requestObject {key : Bytes} (absent : key ∉ reserved ++ stored.map Prod.fst)
    (value : Bytes) :
    (requestObject method route protocol stored).storeString key value =
      requestObject method route protocol (stored ++ [(key, value)]) := by
  rw [← keys_requestObject method route protocol stored] at absent
  have missing : (requestObject method route protocol stored).memberOrNew key = new .notype := by
    simp [memberOrNew, KeyedList.get?_eq_none_iff.mpr absent]
  rw [storeString, missing, KeyedList.set_of_notMem absent]
  simp [requestObject, new, ofString]

theorem storeValue_requestObject (stale : Memory) {key value : Bytes}
    (absent : key ∉ reserved ++ stored.map Prod.fst) (noJson : NoJson value) :
    Converges (storeValue stale (requestObject method route protocol stored) key value)
      (requestObject method route protocol (stored ++ [(key, value)])) := by
  rw [← keys_requestObject method route protocol stored] at absent
  have converges := storeValue_converges stale _ absent noJson
  simpa [requestObject] using converges

end Objects

namespace HttpParse

open HttpHead

variable {memory : Memory} {heap : Nat → Memory} {method route protocol : Bytes}
  {stored : List (Bytes × Bytes)} {it : Nat} {key value : Bytes}

/-- A line end after a value of the head: the carriage return is dropped. -/
theorem reaches_lineEnd (lineEnd : LineEnd) {requestObj after : JsonObject} {state : Nat}
    (reads : state = 4 ∨ state = 6) (holds : memory.Holds it lineEnd.text)
    (lineFeed : ∀ {it}, memory it = ch '\n' →
      Reaches memory heap ⟨requestObj, it, false, state, key, value⟩
        ⟨after, it + 1, false, 5, [], value⟩) :
    Reaches memory heap ⟨requestObj, it, false, state, key, value⟩
      ⟨after, it + lineEnd.text.length, false, 5, [], value⟩ := by
  cases lineEnd with
  | lf => exact lineFeed holds.1
  | crlf => exact (reaches_carriage_value holds.1 reads).trans (lineFeed holds.2.1)

theorem reaches_protocol (lineEnd : LineEnd) {text : Bytes} (plain : ∀ byte ∈ text, Plain byte)
    (holds : memory.Holds it (text ++ lineEnd.text)) :
    Reaches memory heap ⟨requestObject method route protocol stored, it, false, 4, key, []⟩
      ⟨requestObject method route text stored, it + (text ++ lineEnd.text).length, false, 5, [],
        text⟩ := by
  obtain ⟨textHolds, endHolds⟩ := Memory.holds_append.mp holds
  rw [List.length_append, ← Nat.add_assoc]
  apply (reaches_value text (fun byte member => ⟨plain byte member, by simp⟩) textHolds).trans
  apply reaches_lineEnd lineEnd (Or.inl rfl) endHolds
  intro it here
  exact reaches_lineFeed_protocol here

/-- A query pair, up to the byte that ends its value. -/
theorem reaches_pair {requestObj : JsonObject} (pair : Bytes × Bytes)
    (keys : ∀ byte ∈ pair.1, Plain byte ∧ byte ≠ ch ' ' ∧ byte ≠ ch '=' ∧ byte ≠ ch '&')
    (values : ∀ byte ∈ pair.2, Plain byte ∧ byte ∉ bytes " &+\"\x7b[\\")
    (holds : memory.Holds it (pair.1 ++ (ch '=' :: pair.2))) :
    Reaches memory heap ⟨requestObj, it, false, 2, [], value⟩
      ⟨requestObj, it + (pair.1 ++ (ch '=' :: pair.2)).length, false, 3, pair.1, pair.2⟩ := by
  obtain ⟨keyHolds, equals, valueHolds⟩ := Memory.holds_append.mp holds
  have isKey (byte : UInt8) (member : byte ∈ pair.1) : PartOfKey 2 byte := by
    obtain ⟨plain, space, equal, -⟩ := keys byte member
    exact ⟨plain, Or.inl ⟨rfl, space, equal⟩⟩
  have isValue (byte : UInt8) (member : byte ∈ pair.2) : PartOfValue 3 byte := by
    obtain ⟨plain, excluded⟩ := values byte member
    simp only [bytes, String.reduceToList, List.map_cons, List.map_nil, List.mem_cons,
      List.not_mem_nil, or_false, not_or] at excluded
    exact ⟨plain, Or.inr (Or.inl ⟨rfl, excluded.1, excluded.2.1, excluded.2.2.1⟩)⟩
  have cursor : it + (pair.1 ++ (ch '=' :: pair.2)).length =
      it + pair.1.length + 1 + pair.2.length := by
    simp only [List.length_append, List.length_cons]
    omega
  rw [cursor]
  apply (reaches_key pair.1 isKey keyHolds).trans
  apply (reaches_equals equals).trans
  exact reaches_value pair.2 isValue valueHolds

theorem noJson_of_queryValue {text : Bytes}
    (values : ∀ byte ∈ text, Plain byte ∧ byte ∉ bytes " &+\"\x7b[\\") : NoJson text := by
  intro byte member
  obtain ⟨plain, excluded⟩ := values byte member
  simp only [bytes, String.reduceToList, List.map_cons, List.map_nil, List.mem_cons,
    List.not_mem_nil, or_false, not_or] at excluded
  exact ⟨plain.1, excluded.2.2.2⟩

/-- The query, with the space behind it. -/
theorem reaches_query (value : Bytes) (query : List (Bytes × Bytes)) (nonempty : query ≠ [])
    (keys : ∀ pair ∈ query, ∀ byte ∈ pair.1,
      Plain byte ∧ byte ≠ ch ' ' ∧ byte ≠ ch '=' ∧ byte ≠ ch '&')
    (values : ∀ pair ∈ query, ∀ byte ∈ pair.2, Plain byte ∧ byte ∉ bytes " &+\"\x7b[\\")
    (distinct : (reserved ++ (stored ++ query).map Prod.fst).Nodup)
    (holds : memory.Holds it (queryText query ++ [ch ' '])) :
    ∃ last, Reaches memory heap
      ⟨requestObject method route protocol stored, it, false, 2, [], value⟩
      ⟨requestObject method route protocol (stored ++ query), it + (queryText query).length + 1,
        false, 4, last, []⟩ := by
  induction query generalizing stored it value with
  | nil => exact absurd rfl nonempty
  | cons pair rest ih =>
      have absent : pair.1 ∉ reserved ++ stored.map Prod.fst := by
        simp only [List.map_append, List.map_cons, ← List.append_assoc] at distinct
        exact fun member => List.disjoint_of_nodup_append distinct member (by simp)
      have noJson := noJson_of_queryValue (values pair (by simp))
      cases rest with
      | nil =>
          obtain ⟨pairHolds, space, -⟩ := Memory.holds_append.mp holds
          refine ⟨pair.1, ?_⟩
          apply (reaches_pair pair (keys pair (by simp)) (values pair (by simp)) pairHolds).trans
          exact reaches_space_value space (storeValue_requestObject _ absent noJson)
      | cons next rest =>
          have grouped : queryText (pair :: next :: rest) ++ [ch ' '] =
              (pair.1 ++ (ch '=' :: pair.2)) ++
                (ch '&' :: (queryText (next :: rest) ++ [ch ' '])) := by
            simp [queryText]
          rw [grouped] at holds
          obtain ⟨pairHolds, ampersand, restHolds⟩ := Memory.holds_append.mp holds
          have distinctRest :
              (reserved ++ (stored ++ [pair] ++ next :: rest).map Prod.fst).Nodup := by
            simpa using distinct
          obtain ⟨last, later⟩ := ih pair.2 (by simp)
            (fun other member => keys other (List.mem_cons_of_mem _ member))
            (fun other member => values other (List.mem_cons_of_mem _ member)) distinctRest
            restHolds
          have cursor : it + (queryText (pair :: next :: rest)).length + 1 =
              it + (pair.1 ++ (ch '=' :: pair.2)).length + 1 + (queryText (next :: rest)).length +
                1 := by
            simp only [queryText, List.length_append, List.length_cons]
            omega
          refine ⟨last, ?_⟩
          rw [cursor]
          apply (reaches_pair pair (keys pair (by simp)) (values pair (by simp)) pairHolds).trans
          apply (reaches_ampersand ampersand
            (storeValue_requestObject _ absent noJson)).trans
          simpa using later

/-- One header line, from the first byte of its name to its line end. -/
theorem reaches_header (header : HttpHeader)
    (names : ∀ byte ∈ header.name, Plain byte ∧ byte ≠ ch ':')
    (values : ∀ byte ∈ header.value, Plain byte)
    (absent : header.name ∉ reserved ++ stored.map Prod.fst)
    (holds : memory.Holds it header.text) :
    Reaches memory heap ⟨requestObject method route protocol stored, it, false, 5, [], value⟩
      ⟨requestObject method route protocol (stored ++ [(header.name, header.value)]),
        it + header.text.length, false, 5, [], header.value⟩ := by
  simp only [HttpHeader.text, Memory.holds_append, Memory.holds_cons] at holds
  obtain ⟨nameHolds, colon, space, valueHolds, endHolds⟩ := holds
  have cursor : it + header.text.length =
      it + header.name.length + 1 + 1 + header.value.length + header.lineEnd.text.length := by
    simp only [HttpHeader.text, List.length_append, List.length_cons]
    omega
  rw [cursor, ← storeString_requestObject absent]
  have isName (byte : UInt8) (member : byte ∈ header.name) : PartOfKey 5 byte :=
    ⟨(names byte member).1, Or.inr ⟨rfl, (names byte member).2⟩⟩
  have isValue (byte : UInt8) (member : byte ∈ header.value) : PartOfValue 6 byte :=
    ⟨values byte member, by simp⟩
  apply (reaches_key header.name isName nameHolds).trans
  apply (reaches_colon colon).trans
  apply (reaches_value header.value isValue valueHolds).trans
  apply reaches_lineEnd header.lineEnd (Or.inr rfl) endHolds
  intro it here
  exact reaches_lineFeed_header here

theorem reaches_headers (value : Bytes) (headers : List HttpHeader)
    (names : ∀ header ∈ headers, ∀ byte ∈ header.name, Plain byte ∧ byte ≠ ch ':')
    (values : ∀ header ∈ headers, ∀ byte ∈ header.value, Plain byte)
    (distinct : (reserved ++ (stored ++ headers.map fun header =>
      (header.name, header.value)).map Prod.fst).Nodup)
    (holds : memory.Holds it (headers.flatMap HttpHeader.text)) :
    ∃ last, Reaches memory heap
      ⟨requestObject method route protocol stored, it, false, 5, [], value⟩
      ⟨requestObject method route protocol
          (stored ++ headers.map fun header => (header.name, header.value)),
        it + (headers.flatMap HttpHeader.text).length, false, 5, [], last⟩ := by
  induction headers generalizing stored it value with
  | nil => exact ⟨value, by simpa using Reaches.refl _⟩
  | cons header rest ih =>
      rw [List.flatMap_cons, Memory.holds_append] at holds
      have absent : header.name ∉ reserved ++ stored.map Prod.fst := by
        simp only [List.map_append, List.map_cons, ← List.append_assoc] at distinct
        exact fun member => List.disjoint_of_nodup_append distinct member (by simp)
      have distinctRest : (reserved ++ (stored ++ [(header.name, header.value)] ++
          rest.map fun header => (header.name, header.value)).map Prod.fst).Nodup := by
        simpa using distinct
      obtain ⟨last, later⟩ := ih header.value
        (fun other member => names other (List.mem_cons_of_mem _ member))
        (fun other member => values other (List.mem_cons_of_mem _ member)) distinctRest holds.2
      have both : Reaches memory heap
          ⟨requestObject method route protocol stored, it, false, 5, [], value⟩ _ :=
        (reaches_header header (names header (by simp)) (values header (by simp)) absent
          holds.1).trans later
      exact ⟨last, by simpa [Nat.add_assoc] using both⟩

/-- The blank line ends the loop in front of the body. -/
theorem runs_blank (lineEnd : LineEnd) {requestObj : JsonObject}
    (holds : memory.Holds it lineEnd.text) :
    ∃ last, ∀ result, Runs memory heap ⟨requestObj, it, false, 5, [], value⟩ result ↔
      result = ⟨requestObj, it + lineEnd.text.length, true, 8, last, value⟩ := by
  cases lineEnd with
  | lf =>
      exact ⟨[], fun result => (reaches_lineFeed_blank holds.1 result).trans (runs_exit rfl)⟩
  | crlf =>
      have blank : Reaches memory heap ⟨requestObj, it, false, 5, [], value⟩ _ :=
        (reaches_carriage_key holds.1).trans (reaches_lineFeed_blank holds.2.1)
      exact ⟨[ch '\r'], fun result => (blank result).trans (runs_exit rfl)⟩

theorem distinct_query {head : HttpHead} (wellFormed : head.WellFormed) :
    (reserved ++ ([] ++ head.query).map Prod.fst).Nodup := by
  have all := wellFormed.distinct
  simp only [HttpHead.stored, List.map_append, ← List.append_assoc] at all
  simpa using (List.nodup_append.mp all).1

/-- The route and the query, with the space behind them. -/
theorem reaches_target {head : HttpHead} (wellFormed : head.WellFormed)
    (holds : memory.Holds it (head.target ++ [ch ' '])) :
    ∃ last, Reaches memory heap
      ⟨requestObject method [] protocol [], it, false, 1, [], [ch '/']⟩
      ⟨requestObject method (ch '/' :: head.path) protocol head.query,
        it + (head.target ++ [ch ' ']).length, false, 4, last, []⟩ := by
  rw [List.length_append, List.length_singleton, ← Nat.add_assoc]
  have isPath (byte : UInt8) (member : byte ∈ head.path) : PartOfValue 1 byte :=
    ⟨(wellFormed.path byte member).1, Or.inl ⟨rfl, (wellFormed.path byte member).2⟩⟩
  rw [← setStringValue_route method [] protocol]
  by_cases noQuery : head.query = []
  · simp only [target, noQuery, if_true, List.append_nil] at holds ⊢
    obtain ⟨pathHolds, space, -⟩ := Memory.holds_append.mp holds
    refine ⟨[], (reaches_value head.path isPath pathHolds).trans ?_⟩
    exact reaches_space_route space (by simp)
  · simp only [target, noQuery, if_false, List.append_assoc, List.cons_append] at holds ⊢
    obtain ⟨pathHolds, question, queryHolds⟩ := Memory.holds_append.mp holds
    obtain ⟨last, query⟩ := reaches_query ([ch '/'] ++ head.path) head.query noQuery
      wellFormed.queryKeys wellFormed.queryValues (distinct_query wellFormed) queryHolds
    have cursor : it + (head.path ++ (ch '?' :: queryText head.query)).length + 1 =
        it + head.path.length + 1 + (queryText head.query).length + 1 := by
      simp only [List.length_append, List.length_cons]
      omega
    refine ⟨last, ?_⟩
    rw [cursor]
    apply (reaches_value head.path isPath pathHolds).trans
    exact (reaches_question question).trans query

/-- The lines of a head, behind its target. -/
theorem runs_lines {head : HttpHead} (heap : Nat → Memory)
    (protocolPlain : ∀ byte ∈ head.protocol, Plain byte)
    (names : ∀ header ∈ head.headers, ∀ byte ∈ header.name, Plain byte ∧ byte ≠ ch ':')
    (values : ∀ header ∈ head.headers, ∀ byte ∈ header.value, Plain byte)
    (distinct : (reserved ++ (stored ++ head.headers.map fun header =>
      (header.name, header.value)).map Prod.fst).Nodup)
    (holds : memory.Holds it head.lines) :
    ∃ last lastValue, ∀ result,
      Runs memory heap ⟨requestObject method route protocol stored, it, false, 4, key, []⟩ result ↔
        result = ⟨requestObject method route head.protocol
            (stored ++ head.headers.map fun header => (header.name, header.value)),
          it + head.lines.length, true, 8, last, lastValue⟩ := by
  have grouped : head.lines = (head.protocol ++ head.protocolEnd.text) ++
      (head.headers.flatMap HttpHeader.text ++ head.blankEnd.text) := by
    simp [HttpHead.lines]
  rw [grouped] at holds ⊢
  obtain ⟨protocolHolds, holds⟩ := Memory.holds_append.mp holds
  obtain ⟨headersHolds, blankHolds⟩ := Memory.holds_append.mp holds
  have firstLine : Reaches memory heap
      ⟨requestObject method route protocol stored, it, false, 4, key, []⟩ _ :=
    reaches_protocol head.protocolEnd protocolPlain protocolHolds
  obtain ⟨lastValue, headers⟩ : ∃ last, Reaches memory heap
      ⟨requestObject method route head.protocol stored, _, false, 5, [], head.protocol⟩
      ⟨_, _, false, 5, [], last⟩ :=
    reaches_headers head.protocol head.headers names values distinct headersHolds
  obtain ⟨last, blank⟩ : ∃ last, ∀ result,
      Runs memory heap ⟨_, _, false, 5, [], lastValue⟩ result ↔ result = ⟨_, _, true, 8, last, _⟩ :=
    runs_blank head.blankEnd blankHolds
  refine ⟨last, lastValue, fun result => ?_⟩
  rw [firstLine result, headers result, blank result]
  simp only [List.length_append, Nat.add_assoc]

/-- The head behind its method and the slash. -/
theorem runs_head (protocol : Bytes) (heap : Nat → Memory) {head : HttpHead}
    (wellFormed : head.WellFormed) (holds : memory.Holds it (head.target ++ (ch ' ' :: head.lines))) :
    ∃ last lastValue, ∀ result,
      Runs memory heap ⟨requestObject head.method [] protocol [], it, false, 1, [], [ch '/']⟩
          result ↔
        result = ⟨head.object, it + (head.target ++ (ch ' ' :: head.lines)).length, true, 8, last,
          lastValue⟩ := by
  have grouped : head.target ++ (ch ' ' :: head.lines) = (head.target ++ [ch ' ']) ++ head.lines := by
    simp
  rw [grouped] at holds ⊢
  obtain ⟨targetHolds, linesHolds⟩ := Memory.holds_append.mp holds
  obtain ⟨targetKey, target⟩ : ∃ last, Reaches memory heap
      ⟨requestObject head.method [] protocol [], it, false, 1, [], [ch '/']⟩
      ⟨requestObject head.method (ch '/' :: head.path) protocol head.query, _, false, 4, last,
        []⟩ := reaches_target wellFormed targetHolds
  obtain ⟨last, lastValue, lines⟩ := runs_lines heap wellFormed.protocol wellFormed.headerNames
    wellFormed.headerValues wellFormed.distinct linesHolds
  refine ⟨last, lastValue, fun result => ?_⟩
  rw [target result, lines result, Nat.add_assoc, ← List.length_append]
  rfl

theorem requestStartsWith_iff (request : Nat) {literal : Bytes} (nonempty : literal ≠ []) :
    requestStartsWith memory request literal = true ↔ memory.Holds request literal := by
  have counted : (literal.length : Int) ≠ 0 := by
    simpa using nonempty
  rw [requestStartsWith, decide_eq_true_iff, Util.strictCompareInequal, if_pos counted,
    Option.some_inj, List.any_eq_false, Memory.holds_iff]
  refine forall_congr' fun index => ?_
  rw [List.mem_range, Int.toNat_natCast]
  refine forall_congr' fun bound => ?_
  simp [List.getElem?_append_left bound, bound]

theorem httpStart_of_holds {method rest : Bytes} (known : method ∈ methods) {request : Nat}
    (holds : memory.Holds request (method ++ (ch ' ' :: ch '/' :: rest))) :
    httpStart memory request = some (method, request + method.length + 2) := by
  classical
  have starts (literal : Bytes) (nonempty : literal ≠ []) :
      requestStartsWith memory request literal = true ↔ memory.Holds request literal :=
    requestStartsWith_iff request nonempty
  simp only [httpStart, starts (bytes "GET /") (by decide), starts (bytes "HEAD /") (by decide),
    starts (bytes "POST /") (by decide), starts (bytes "DELETE /") (by decide),
    starts (bytes "PUT /") (by decide)]
  simp only [methods, bytes, String.reduceToList, List.map_cons, List.map_nil, List.mem_cons,
    List.not_mem_nil, or_false] at known
  rcases known with rfl | rfl | rfl | rfl | rfl <;>
    simp only [List.cons_append, List.nil_append, Memory.holds_cons] at holds <;>
    simp [bytes, holds, ch_eq_ch_iff]

end HttpParse

open HttpParse HttpHead

theorem get?_object (head : HttpHead) :
    KeyedList.get? head.object.objectValues (bytes "Content-Type") =
      head.contentType.map ofString := by
  rw [contentType, ← KeyedList.get?_map]
  rfl

theorem getStr_object (head : HttpHead) :
    head.object.getStr (bytes "Content-Type") = head.contentType := by
  rw [getStr, get?_object]
  cases head.contentType <;> rfl

theorem hasObj_object {head : HttpHead} {contentType : Bytes}
    (present : head.contentType = some contentType) :
    head.object.hasObj (bytes "Content-Type") .string = true := by
  simp [hasObj, get?_object, present, ofString]

section Bodies

variable {memory : Memory} {heap : Nat → Memory} {head : HttpHead} {it state : Nat} {exits : Bool}
  {key value : Bytes}

theorem parseBody_json (json : head.contentType = some (bytes "application/json")) :
    parseBody memory heap ⟨head.object, it, exits, state, key, value⟩ = fun fuel =>
      (JsonObject.parse memory head.object it fuel).map fun result => (.httpApi, result.1) := by
  funext fuel
  simp [parseBody, getStr_object, hasObj_object json, json]

theorem parseBody_form
    (form : head.contentType = some (bytes "application/x-www-form-urlencoded")) :
    parseBody memory heap ⟨head.object, it, exits, state, key, value⟩ = fun fuel =>
      (parseForm memory heap head.object it fuel).map fun object => (.httpForm, object) := by
  have notJson : bytes "application/x-www-form-urlencoded" ≠ bytes "application/json" := by decide
  funext fuel
  simp [parseBody, getStr_object, hasObj_object form, form, notJson]

theorem parseBody_http (notJson : head.contentType ≠ some (bytes "application/json"))
    (notForm : head.contentType ≠ some (bytes "application/x-www-form-urlencoded")) :
    parseBody memory heap ⟨head.object, it, exits, state, key, value⟩ = fun _ =>
      some (.http, head.object) := by
  funext fuel
  simp [parseBody, getStr_object, notJson, notForm]

end Bodies

/-- `parse_http_request` reads a well-formed head and stands at the body. -/
theorem parseHttpRequest_head {memory : Memory} (heap : Nat → Memory) {request : Nat}
    {head : HttpHead} (wellFormed : head.WellFormed) (holds : memory.Holds request head.text) :
    ∃ last lastValue, ∀ result,
      Converges (parseHttpRequest memory heap request (new .object)) result ↔
        Converges (HttpParse.parseBody memory heap
          ⟨head.object, request + head.text.length, true, 8, last, lastValue⟩) result := by
  have start := httpStart_of_holds wellFormed.method holds
  obtain ⟨-, -, -, restHolds⟩ := Memory.holds_append.mp holds
  obtain ⟨last, lastValue, runs⟩ := runs_head (bytes "JPON") heap wellFormed restHolds
  have length : request + head.method.length + 1 + 1 +
      (head.target ++ (ch ' ' :: head.lines)).length = request + head.text.length := by
    simp only [HttpHead.text, List.length_append, List.length_cons]
    omega
  rw [length] at runs
  refine ⟨last, lastValue, fun result => ?_⟩
  have unfolded : parseHttpRequest memory heap request (new .object) = fun fuel =>
      (HttpParse.loop memory heap fuel
        ⟨requestObject head.method [] (bytes "JPON") [], request + head.method.length + 1 + 1,
          false, 1, [], [ch '/']⟩).bind fun parse => parse.parseBody memory heap fuel := by
    funext fuel
    simp only [parseHttpRequest, start]
    rfl
  rw [unfolded, converges_bind (loop_stable memory heap _) (parseBody_stable memory heap)]
  constructor
  · rintro ⟨parse, parsed, body⟩
    rw [(runs parse).mp parsed] at body
    exact body
  · intro body
    exact ⟨_, (runs _).mpr rfl, body⟩

/-- Behind any white space, the members of a rendered object are added to an object. -/
theorem parse_object_body {memory : Memory} {it : Nat} {members updates : List (Bytes × JsonObject)}
    {before body : Bytes} (spaces : Whitespace before) (wellFormed : WellFormedMembers updates)
    (renders : RendersMembers updates body)
    (holds : memory.Holds it (before ++ (ch '{' :: (body ++ [ch '}'])))) :
    ∃ cursor, Converges (JsonObject.parse memory ⟨.object, [], members, []⟩ it)
      (⟨.object, [], KeyedList.setAll members updates, []⟩, cursor) := by
  obtain ⟨beforeHolds, opening, bodyHolds⟩ := Memory.holds_append.mp holds
  obtain ⟨bodyHolds, closing, -⟩ := Memory.holds_append.mp bodyHolds
  refine ⟨it + before.length + 1 + body.length, ?_⟩
  change Parses memory ⟨⟨.object, [], members, []⟩, [], .noState, it⟩ _
  rw [parses_spaces _ (by simp [ParseState.Collecting]) spaces beforeHolds]
  have opens := parseAction_openBrace
    ⟨⟨.object, [], members, []⟩, [], .noState, it + before.length⟩ opening
  rw [parses_next (by change memory (_ + _) ≠ 0; rw [opening]; decide) opens,
    collect_of_not_collecting _ (by simp [ParseState.Collecting])]
  have closes := parseAction_closeBrace
    ⟨⟨.object, [], KeyedList.setAll members updates, []⟩, [], .noState,
      it + before.length + 1 + body.length⟩ closing
  refine (parses_members (rendersMembers_builds wellFormed renders) bodyHolds).mpr ?_
  exact (parses_done (by change memory (_ + _) ≠ 0; rw [closing]; decide) closes).mpr rfl

/-- The members of a JSON body are set in the object of the head. -/
theorem parseHttpRequest_json {memory : Memory} (heap : Nat → Memory) {request : Nat}
    {head : HttpHead} (wellFormed : head.WellFormed) (holds : memory.Holds request head.text)
    (json : head.contentType = some (bytes "application/json")) {before body : Bytes}
    {members : List (Bytes × JsonObject)} (spaces : Whitespace before)
    (membersWellFormed : WellFormedMembers members) (renders : RendersMembers members body)
    (bodyHolds : memory.Holds (request + head.text.length)
      (before ++ (ch '{' :: (body ++ [ch '}'])))) :
    Converges (parseHttpRequest memory heap request (new .object))
      (.httpApi, ⟨.object, [], KeyedList.setAll head.object.objectValues members, []⟩) := by
  obtain ⟨last, lastValue, parses⟩ := parseHttpRequest_head heap wellFormed holds
  obtain ⟨cursor, answer⟩ := parse_object_body spaces membersWellFormed renders bodyHolds
  rw [parses, parseBody_json json, converges_map]
  exact ⟨_, answer, rfl⟩

/-- A well-formed request is parsed to what it says: the head is stored as
strings and nothing else, and a body of a known content type is parsed into the
same object from its first byte on. -/
theorem parseHttpRequest_faithful (memory : Memory) (heap : Nat → Memory) (request : Nat)
    (head : HttpHead) (wellFormed : head.WellFormed) (holds : memory.Holds request head.text) :
    (head.contentType ≠ some (bytes "application/json") →
      head.contentType ≠ some (bytes "application/x-www-form-urlencoded") →
        ∀ result, Converges (parseHttpRequest memory heap request (new .object)) result ↔
          result = (.http, head.object)) ∧
    (head.contentType = some (bytes "application/json") →
      (∀ result, Converges (parseHttpRequest memory heap request (new .object)) result ↔
        ∃ parsed,
          Converges (JsonObject.parse memory head.object (request + head.text.length)) parsed ∧
            result = (.httpApi, parsed.1)) ∧
      ∀ before members body, Whitespace before → WellFormedMembers members →
        RendersMembers members body →
        memory.Holds (request + head.text.length) (before ++ (ch '{' :: (body ++ [ch '}']))) →
          Converges (parseHttpRequest memory heap request (new .object))
            (.httpApi,
              ⟨.object, [], KeyedList.setAll head.object.objectValues members, []⟩)) ∧
    (head.contentType = some (bytes "application/x-www-form-urlencoded") →
      ∀ result, Converges (parseHttpRequest memory heap request (new .object)) result ↔
        ∃ object,
          Converges (parseForm memory heap head.object (request + head.text.length)) object ∧
            result = (.httpForm, object)) := by
  obtain ⟨last, lastValue, parses⟩ := parseHttpRequest_head heap wellFormed holds
  refine ⟨fun notJson notForm result => ?_, fun json => ⟨fun result => ?_, ?_⟩, fun form result => ?_⟩
  · rw [parses]
    simp [Converges, parseBody_http notJson notForm, eq_comm]
  · rw [parses, parseBody_json json, converges_map]
  · intro before members body spaces membersWellFormed renders bodyHolds
    exact parseHttpRequest_json heap wellFormed holds json spaces membersWellFormed renders bodyHolds
  · rw [parses, parseBody_form form, converges_map]

/-- `POST /a?q=1=2 HTTP/1.1` with one header. -/
def sampleHead : HttpHead where
  method := bytes "POST"
  path := bytes "a"
  query := [(bytes "q", bytes "1=2")]
  protocol := bytes "HTTP/1.1"
  protocolEnd := .crlf
  headers := [⟨bytes "Host", bytes "x:1", .lf⟩]
  blankEnd := .crlf

theorem parseHttpRequest_faithful_sampleHead :
    Converges (parseHttpRequest (Memory.ofString (fun _ => 0) sampleHead.text) (fun _ _ => 0) 1
      (new .object)) (.http, sampleHead.object) := by
  have wellFormed : sampleHead.WellFormed := by
    constructor <;> decide +kernel
  have holds := (Memory.holds_append.mp (Memory.ofString_holds (fun _ => 0) sampleHead.text)).1
  have faithful := parseHttpRequest_faithful _ (fun _ _ => 0) 1 sampleHead wellFormed holds
  exact (faithful.1 (by decide) (by decide) _).mpr rfl

end Libjaypea
