import Libjaypea.EncodedTargets

/-!
# Requests with percent-encoded targets

What `parse_http_request` stores when a path, or the value of a query
parameter, has been percent-encoded.  Only unreserved bytes and line feeds
arrive: an ampersand arrives as a quote, and every other byte as two digits.
-/

namespace Libjaypea

open Fuelled JsonObject HttpHead HttpParse

/-- A text that fills a part of a head. -/
def HeadPart.Fills (part : HeadPart) (text : Bytes) : Prop :=
  part.Inside text ∧ 0 ∉ text

/-- A pair of a query, with the ampersand behind it. -/
def pairText (pair : Bytes × Bytes) : Bytes :=
  pair.1 ++ (ch '=' :: (pair.2 ++ [ch '&']))

/-- A request with the encoded path is answered when its head is well-formed,
and keeps the route `/text` whatever it holds unless it names the route again. -/
structure StoresRoute (text : Bytes) : Prop where
  returns : ∀ (memory : Memory) (heap : Nat → Memory) (request : Nat) (head : HttpHead),
    head.WellFormed → head.contentType ≠ some (bytes "application/json") →
    head.contentType ≠ some (bytes "application/x-www-form-urlencoded") →
    memory.Holds request { head with path := encodeTarget text }.text →
    Converges (parseHttpRequest memory heap request (new .object))
      (.http, { head with path := text }.object)
  keeps : ∀ (memory : Memory) (heap : Nat → Memory) (request : Nat) (method tail : Bytes)
      (ends : UInt8) (fuel : Nat) (kind : RequestResult) (object : JsonObject),
    method ∈ methods → ends = ch ' ' ∨ ends = ch '?' → 0 ∉ tail →
    memory.Holds request
      (method ++ (ch ' ' :: ch '/' :: (encodeTarget text ++ ends :: tail ++ [0]))) →
    parseHttpRequest memory heap request (new .object) fuel = some (kind, object) →
    ∃ names, namesIn memory heap (start method (request + method.length + 2)) fuel = some names ∧
      (bytes "route" ∉ names →
        object.hasObj (bytes "route") .string = true ∧
          object.getStr (bytes "route") = some (ch '/' :: text))

/-- A request with the encoded value behind a query key is answered when its
head is well-formed, and keeps the string `text` under that key wherever the
pair stands, unless the key is named again behind it. -/
structure StoresParameter (text : Bytes) : Prop where
  returns : ∀ (memory : Memory) (heap : Nat → Memory) (request : Nat) (head : HttpHead)
      (key value : Bytes),
    head.WellFormed → head.query = [(key, value)] →
    { head with query := [(key, text)] }.contentType ≠ some (bytes "application/json") →
    { head with query := [(key, text)] }.contentType ≠
      some (bytes "application/x-www-form-urlencoded") →
    memory.Holds request { head with query := [(key, encodeTarget text)] }.text →
    Converges (parseHttpRequest memory heap request (new .object))
      (.http, { head with query := [(key, text)] }.object)
  keeps : ∀ (memory : Memory) (heap : Nat → Memory) (request : Nat) (method path key : Bytes)
      (pairs : List (Bytes × Bytes)) (ends : UInt8) (fuel : Nat) (kind : RequestResult)
      (object : JsonObject),
    method ∈ methods → HeadPart.route.Fills path →
    (∀ pair ∈ pairs, HeadPart.queryKey.Fills pair.1 ∧ HeadPart.queryValue.Fills pair.2) →
    HeadPart.queryKey.Fills key → ends = ch ' ' ∨ ends = ch '&' →
    memory.Holds request (method ++ (ch ' ' :: ch '/' :: (path ++ (ch '?' ::
      (pairs.flatMap pairText ++ (key ++ (ch '=' :: (encodeTarget text ++ [ends])))))))) →
    parseHttpRequest memory heap request (new .object) fuel = some (kind, object) →
    ∃ later, namesIn memory heap (start method (request + method.length + 2)) fuel =
        some (pairs.map Prod.fst ++ key :: later) ∧
      (key ∉ later → object.hasObj key .string = true ∧ object.getStr key = some text)

section Returning

variable {memory : Memory} {heap : Nat → Memory} {request : Nat} {head : HttpHead}

/-- A run of the main loop, and what is made of the body behind it. -/
theorem converges_of_runs {method text : Bytes} {last : HttpParse}
    {result : RequestResult × JsonObject} (known : method ∈ methods)
    (holds : memory.Holds request (method ++ (ch ' ' :: ch '/' :: text)))
    (runs : Runs memory heap (start method (request + method.length + 2)) last)
    (body : Converges (last.parseBody memory heap) result) :
    Converges (parseHttpRequest memory heap request (new .object)) result := by
  have unfolded : parseHttpRequest memory heap request (new .object) = fun fuel =>
      (loop memory heap fuel (start method (request + method.length + 2))).bind fun parse =>
        parse.parseBody memory heap fuel :=
    funext fun fuel => parseHttpRequest_start known holds fuel
  rw [unfolded, converges_bind (loop_stable memory heap _) (parseBody_stable memory heap)]
  exact ⟨last, runs, body⟩

theorem outside_escapes {part : HeadPart} {ends : UInt8} (delimits : ends ∈ part.delimiters) :
    ends ∉ bytes "260A" :=
  fun escapes => inside_escapes part ends escapes delimits

/-- The path in front of the byte that ends it. -/
theorem passes_path {requestObj : JsonObject} {path : Bytes} {ends : UInt8} {it : Nat}
    (fills : HeadPart.route.Fills path) (delimits : ends ∈ HeadPart.route.delimiters)
    (holds : memory.Holds it (path ++ [ends])) :
    Passes memory heap ⟨requestObj, it, false, 1, [], [ch '/']⟩
      ⟨requestObj, it + path.length, false, 1, [], ch '/' :: decodePath path⟩ [] := by
  have atPath : AtPart memory .route path ends ⟨requestObj, it, false, 1, [], [ch '/']⟩ :=
    ⟨rfl, rfl, fills.1, fills.2, outside_escapes delimits, holds⟩
  exact atPath.passes (by decide)

/-- A key, the equals sign behind it and a value, in front of the byte that ends it. -/
theorem passes_pair {requestObj : JsonObject} {key raw value : Bytes} {ends : UInt8} {it : Nat}
    (keyFills : HeadPart.queryKey.Fills key) (valueFills : HeadPart.queryValue.Fills raw)
    (delimits : ends ∈ HeadPart.queryValue.delimiters)
    (holds : memory.Holds it (key ++ (ch '=' :: (raw ++ [ends])))) :
    Passes memory heap ⟨requestObj, it, false, 2, [], value⟩
      ⟨requestObj, it + key.length + 1 + raw.length, false, 3, key, decodeValue raw⟩ [] := by
  obtain ⟨keyHolds, equals, valueHolds⟩ := Memory.holds_append.mp holds
  have atKey : AtPart memory .queryKey key (ch '=') ⟨requestObj, it, false, 2, [], value⟩ :=
    ⟨rfl, rfl, keyFills.1, keyFills.2, by decide,
      Memory.holds_append.mpr ⟨keyHolds, equals, trivial⟩⟩
  have atValue : AtPart memory .queryValue raw ends
      ⟨requestObj, it + key.length + 1, false, 3, key, []⟩ :=
    ⟨rfl, rfl, valueFills.1, valueFills.2, outside_escapes delimits, valueHolds⟩
  have keyRead : Passes memory heap _ _ _ := atKey.passes_key
  exact (keyRead.trans (passes_equals equals)).trans (atValue.passes (by decide))

/-- The main loop has read a target and the lines of a head behind it. -/
theorem converges_of_target {target route : Bytes} {stored : List (Bytes × Bytes)}
    (wellFormed : head.WellFormed)
    (holds : memory.Holds request
      (head.method ++ (ch ' ' :: ch '/' :: (target ++ (ch ' ' :: head.lines)))))
    (distinct : (reserved ++ (stored ++ head.headers.map fun header =>
      (header.name, header.value)).map Prod.fst).Nodup)
    (reaches : ∃ key, Reaches memory heap (start head.method (request + head.method.length + 2))
      ⟨requestObject head.method route (bytes "JPON") stored,
        request + head.method.length + 2 + target.length + 1, false, 4, key, []⟩)
    {result : RequestResult × JsonObject}
    (body : ∀ it last lastValue, Converges
      (parseBody memory heap ⟨requestObject head.method route head.protocol
        (stored ++ head.headers.map fun header => (header.name, header.value)),
        it, true, 8, last, lastValue⟩) result) :
    Converges (parseHttpRequest memory heap request (new .object)) result := by
  obtain ⟨-, -, -, restHolds⟩ := Memory.holds_append.mp holds
  obtain ⟨-, -, linesHolds⟩ := Memory.holds_append.mp restHolds
  obtain ⟨key, reaches⟩ := reaches
  obtain ⟨last, lastValue, lines⟩ : ∃ last lastValue, ∀ result, Runs memory heap
      ⟨requestObject head.method route (bytes "JPON") stored, _, false, 4, key, []⟩ result ↔
        result = _ :=
    runs_lines heap wellFormed.protocol wellFormed.headerNames wellFormed.headerValues distinct
      linesHolds
  exact converges_of_runs wellFormed.method holds ((reaches _).mpr ((lines _).mpr rfl))
    (body _ last lastValue)

/-- A body without a known content type is not read. -/
theorem converges_http (memory : Memory) (heap : Nat → Memory) (head : HttpHead)
    (notJson : head.contentType ≠ some (bytes "application/json"))
    (notForm : head.contentType ≠ some (bytes "application/x-www-form-urlencoded")) (it : Nat)
    (last lastValue : Bytes) :
    Converges (parseBody memory heap ⟨head.object, it, true, 8, last, lastValue⟩)
      (.http, head.object) := by
  rw [parseBody_http notJson notForm]
  exact ⟨0, rfl⟩

/-- A well-formed request with any path is answered, and its route is what the
bytes of the path stand for. -/
theorem converges_path {raw : Bytes} (wellFormed : head.WellFormed)
    (fills : HeadPart.route.Fills raw)
    (notJson : head.contentType ≠ some (bytes "application/json"))
    (notForm : head.contentType ≠ some (bytes "application/x-www-form-urlencoded"))
    (holds : memory.Holds request { head with path := raw }.text) :
    Converges (parseHttpRequest memory heap request (new .object))
      (.http, { head with path := decodePath raw }.object) := by
  have answered := converges_http memory heap { head with path := decodePath raw } notJson notForm
  obtain ⟨-, -, -, restHolds⟩ := Memory.holds_append.mp holds
  by_cases noQuery : head.query = []
  · have target : { head with path := raw }.target = raw := by
      simp [HttpHead.target, noQuery]
    rw [target] at restHolds
    obtain ⟨pathHolds, space, -⟩ := Memory.holds_append.mp restHolds
    have path : Passes memory heap (start head.method (request + head.method.length + 2)) _ _ :=
      (passes_path fills (by decide)
        (Memory.holds_append.mpr ⟨pathHolds, space, trivial⟩)).trans
        (passes_space_route space (List.cons_ne_nil _ _))
    rw [HttpHead.text, target] at holds
    have distinct := wellFormed.distinct
    rw [HttpHead.stored] at distinct
    refine converges_of_target wellFormed holds distinct ⟨[], ?_⟩ answered
    rw [noQuery]
    exact path.reaches
  · have target : { head with path := raw }.target = raw ++ (ch '?' :: queryText head.query) := by
      simp [HttpHead.target, noQuery]
    simp only [target, List.append_assoc, List.cons_append] at restHolds
    obtain ⟨pathHolds, question, queryHolds⟩ := Memory.holds_append.mp restHolds
    have path : Passes memory heap (start head.method (request + head.method.length + 2)) _ _ :=
      (passes_path fills (by decide)
        (Memory.holds_append.mpr ⟨pathHolds, question, trivial⟩)).trans (passes_question question)
    have spaceHolds : memory.Holds (request + head.method.length + 2 + raw.length + 1)
        (queryText head.query ++ [ch ' ']) := by
      obtain ⟨queryHolds, space, -⟩ := Memory.holds_append.mp queryHolds
      exact Memory.holds_append.mpr ⟨queryHolds, space, trivial⟩
    obtain ⟨last, query⟩ : ∃ last, Reaches memory heap
        ⟨requestObject head.method (ch '/' :: decodePath raw) (bytes "JPON") [], _, false, 2, [],
          ch '/' :: decodePath raw⟩ ⟨_, _, false, 4, last, []⟩ :=
      reaches_query _ head.query noQuery wellFormed.queryKeys wellFormed.queryValues
        (distinct_query wellFormed) spaceHolds
    rw [HttpHead.text, target] at holds
    have distinct := wellFormed.distinct
    rw [HttpHead.stored] at distinct
    refine converges_of_target wellFormed holds distinct ⟨last, ?_⟩ answered
    have cursor : request + head.method.length + 2 + (raw ++ (ch '?' :: queryText head.query)).length +
        1 = request + head.method.length + 2 + raw.length + 1 + (queryText head.query).length + 1 := by
      simp only [List.length_append, List.length_cons]
      omega
    rw [cursor]
    exact path.reaches.trans query

/-- The same for the value of the only pair of a query, when `storeValue` stores it
as a string. -/
theorem converges_query {key value raw kept : Bytes} (wellFormed : head.WellFormed)
    (query : head.query = [(key, value)]) (fills : HeadPart.queryValue.Fills raw)
    (stores : ∀ stale route, Converges
      (storeValue stale (requestObject head.method route (bytes "JPON") []) key (decodeValue raw))
      (requestObject head.method route (bytes "JPON") [(key, kept)]))
    (notJson : { head with query := [(key, kept)] }.contentType ≠ some (bytes "application/json"))
    (notForm : { head with query := [(key, kept)] }.contentType ≠
      some (bytes "application/x-www-form-urlencoded"))
    (holds : memory.Holds request { head with query := [(key, raw)] }.text) :
    Converges (parseHttpRequest memory heap request (new .object))
      (.http, { head with query := [(key, kept)] }.object) := by
  have answered := converges_http memory heap { head with query := [(key, kept)] } notJson notForm
  have pairMember : (key, value) ∈ head.query := by
    simp [query]
  have isPath (byte : UInt8) (member : byte ∈ head.path) : PartOfValue 1 byte :=
    ⟨(wellFormed.path byte member).1, Or.inl ⟨rfl, (wellFormed.path byte member).2⟩⟩
  have keyFills : HeadPart.queryKey.Fills key := by
    refine ⟨fun byte member => ?_, fun zero => ?_⟩
    · obtain ⟨-, space, equals, -⟩ := wellFormed.queryKeys _ pairMember byte member
      simp [HeadPart.delimiters, bytes, space, equals]
    · exact (wellFormed.queryKeys _ pairMember 0 zero).1.1 rfl
  obtain ⟨-, -, -, restHolds⟩ := Memory.holds_append.mp holds
  have target : { head with query := [(key, raw)] }.target =
      head.path ++ (ch '?' :: (key ++ (ch '=' :: raw))) := by
    simp [HttpHead.target, queryText]
  simp only [target, List.append_assoc, List.cons_append] at restHolds
  obtain ⟨pathHolds, question, pairHolds⟩ := Memory.holds_append.mp restHolds
  obtain ⟨keyHolds, equals, pairHolds⟩ := Memory.holds_append.mp pairHolds
  obtain ⟨valueHolds, space, -⟩ := Memory.holds_append.mp pairHolds
  have path : Reaches memory heap (start head.method (request + head.method.length + 2)) _ :=
    (reaches_value head.path isPath pathHolds).trans (reaches_question question)
  have pair : Passes memory heap
      ⟨requestObject head.method (ch '/' :: head.path) (bytes "JPON") [], _, false, 2, [],
        ch '/' :: head.path⟩ _ [] :=
    passes_pair keyFills fills (by decide) (Memory.holds_append.mpr
      ⟨keyHolds, equals, Memory.holds_append.mpr ⟨valueHolds, space, trivial⟩⟩)
  have later := reaches_space_value space (stores (heap _) (ch '/' :: head.path))
  rw [HttpHead.text, target] at holds
  have distinct : (reserved ++ ([(key, kept)] ++ head.headers.map fun header =>
      (header.name, header.value)).map Prod.fst).Nodup := by
    have all := wellFormed.distinct
    rw [HttpHead.stored, query] at all
    exact all
  refine converges_of_target wellFormed holds distinct ⟨key, ?_⟩ answered
  have cursor : request + head.method.length + 2 +
      (head.path ++ (ch '?' :: (key ++ (ch '=' :: raw)))).length + 1 =
      request + head.method.length + 2 + head.path.length + 1 + key.length + 1 + raw.length + 1 := by
    simp only [List.length_append, List.length_cons]
    omega
  rw [cursor]
  exact (path.trans pair.reaches).trans later

end Returning

section Storing

variable {memory : Memory} {text value front back : Bytes}

/-- Behind a first quote the parser keeps what it finds up to the next one. -/
theorem exists_parses_quote {it : Nat} (noJson : NoJson front)
    (plain : ∀ byte ∈ back, byte ≠ 0 ∧ byte ≠ ch '\\')
    (holds : memory.Holds it (front ++ (ch '"' :: (back ++ [0])))) :
    ∃ kept cursor, Parses memory (.start (new .notype) it) (ofString kept, cursor) ∧
      ∀ byte ∈ kept, byte ∈ back := by
  obtain ⟨frontHolds, quote, backHolds⟩ := Memory.holds_append.mp holds
  have opens : parseAction memory (.start (new .notype) (it + front.length)) =
      .next (.start (new .string) (it + front.length)) :=
    parseAction_quote (.start (new .notype) (it + front.length)) quote
  have begins (result : JsonObject × Nat) : Parses memory (.start (new .notype) it) result ↔
      Parses memory (.start (new .string) (it + front.length + 1)) result := by
    rw [parses_noJson (.start (new .notype) it) rfl frontHolds noJson]
    exact parses_next (by change memory (it + front.length) ≠ 0; rw [quote]; decide) opens
  by_cases closed : ch '"' ∈ back
  · obtain ⟨kept, rest, rfl, unquoted⟩ := List.eq_append_cons_of_mem closed
    rw [List.append_assoc, List.cons_append] at backHolds
    obtain ⟨keptHolds, closing, -⟩ := Memory.holds_append.mp backHolds
    have collects : Collects kept kept := collects_plain fun byte member =>
      ⟨(plain byte (List.mem_append_left _ member)).1, fun same => unquoted (same ▸ member),
        (plain byte (List.mem_append_left _ member)).2⟩
    have closes := parseAction_quote
      ⟨new .string, kept, .noState, it + front.length + 1 + kept.length⟩ closing
    refine ⟨kept, it + front.length + 1 + kept.length + 1, ?_,
      fun byte member => List.mem_append_left _ member⟩
    rw [begins, parses_collects (.start (new .string) _) collects (.inl rfl) keptHolds]
    exact (parses_done (by rw [closing]; decide) closes).mpr rfl
  · obtain ⟨backHolds, terminator, -⟩ := Memory.holds_append.mp backHolds
    have collects : Collects back back := collects_plain fun byte member =>
      ⟨(plain byte member).1, fun same => closed (same ▸ member), (plain byte member).2⟩
    refine ⟨[], it + front.length + 1 + back.length - 1, ?_, List.forall_mem_nil _⟩
    rw [begins, parses_collects (.start (new .string) _) collects (.inl rfl) backHolds]
    exact (parses_terminator terminator).mpr rfl

/-- A value that opens no object or array is stored as a string: itself, unless
a quote in it begins another one. -/
theorem exists_storeValue {method protocol key : Bytes}
    (absent : key ∉ reserved ++ ([] : List (Bytes × Bytes)).map Prod.fst)
    (plain : ∀ byte ∈ value, byte ≠ 0 ∧ byte ≠ ch '{' ∧ byte ≠ ch '[' ∧ byte ≠ ch '\\') :
    ∃ kept, (∀ stale route, Converges
        (storeValue stale (requestObject method route protocol []) key value)
        (requestObject method route protocol [(key, kept)])) ∧
      (ch '"' ∉ value → kept = value) ∧ ∀ byte ∈ kept, byte ∈ value := by
  by_cases quoted : ch '"' ∈ value
  · obtain ⟨front, back, rfl, unquoted⟩ := List.eq_append_cons_of_mem quoted
    have noJson : NoJson front := fun byte member => by
      obtain ⟨nonzero, brace, bracket, backslash⟩ := plain byte (List.mem_append_left _ member)
      exact ⟨nonzero, fun same => unquoted (same ▸ member), brace, bracket, backslash⟩
    have unescaped : Unescaped (front ++ ch '"' :: back) := fun byte member =>
      ⟨(plain byte member).1, (plain byte member).2.2.2⟩
    have backPlain (byte : UInt8) (member : byte ∈ back) : byte ≠ 0 ∧ byte ≠ ch '\\' :=
      unescaped byte (by simp [member])
    have holds := Memory.ofString_holds (fun _ => 0) (front ++ ch '"' :: back)
    rw [List.append_assoc, List.cons_append] at holds
    obtain ⟨kept, cursor, ⟨fuel, parsed⟩, part⟩ := exists_parses_quote noJson backPlain holds
    refine ⟨kept, fun stale route => ?_, fun none => absurd quoted none,
      fun byte member => by simp [part byte member]⟩
    have missing : memberOrNew (requestObject method route protocol []) key = new .notype := by
      rw [memberOrNew, KeyedList.get?_eq_none_iff.mpr (by rwa [keys_requestObject])]
      rfl
    rw [storeValue_agree unescaped (fun _ => 0) stale]
    refine ⟨fuel, ?_⟩
    have parses : parse (Memory.ofString (fun _ => 0) (front ++ ch '"' :: back))
        { memberOrNew (requestObject method route protocol []) key with type := .notype } 1 fuel =
          some (ofString kept, cursor) := by
      rw [missing]
      exact parsed
    have added : KeyedList.set (requestObject method route protocol []).objectValues key
        (ofString kept) = (requestObject method route protocol [(key, kept)]).objectValues :=
      KeyedList.set_of_notMem (by rwa [keys_requestObject]) _
    rw [storeValue, parses]
    exact congrArg (fun members => some (⟨.object, [], members, []⟩ : JsonObject)) added
  · have noJson : NoJson value := fun byte member => by
      obtain ⟨nonzero, brace, bracket, backslash⟩ := plain byte member
      exact ⟨nonzero, fun same => quoted (same ▸ member), brace, bracket, backslash⟩
    exact ⟨value, fun stale _ => storeValue_requestObject stale absent noJson, fun _ => rfl,
      fun _ member => member⟩

end Storing

section Keeping

variable {memory : Memory} {heap : Nat → Memory} {key raw value : Bytes} {ends : UInt8}

theorem delimits_value (isEnd : ends = ch ' ' ∨ ends = ch '&') :
    ends ∈ HeadPart.queryValue.delimiters := by
  rcases isEnd with rfl | rfl <;> decide

/-- A run that goes past a pair has stored the value of the pair. -/
theorem pair_split {requestObj : JsonObject} {it fuel : Nat} {last : HttpParse}
    {all : List Bytes} (keyFills : HeadPart.queryKey.Fills key)
    (valueFills : HeadPart.queryValue.Fills raw) (isEnd : ends = ch ' ' ∨ ends = ch '&')
    (holds : memory.Holds it (key ++ (ch '=' :: (raw ++ [ends]))))
    (runs : loop memory heap fuel ⟨requestObj, it, false, 2, [], value⟩ = some last)
    (named : namesStored memory heap fuel ⟨requestObj, it, false, 2, [], value⟩ = some all) :
    ∃ stored fuelLeft later, Converges
        (requestObj.storeValue (heap (it + key.length + 1 + raw.length)) key (decodeValue raw))
        stored ∧
      loop memory heap fuelLeft
        (behindValue ends stored (it + key.length + 1 + raw.length) key (decodeValue raw)) =
          some last ∧
      namesStored memory heap fuelLeft
        (behindValue ends stored (it + key.length + 1 + raw.length) key (decodeValue raw)) =
          some later ∧ all = key :: later := by
  have here : memory (it + key.length + 1 + raw.length) = ends := by
    obtain ⟨-, -, valueHolds⟩ := Memory.holds_append.mp holds
    exact (Memory.holds_append.mp valueHolds).2.1
  have pair : Passes memory heap ⟨requestObj, it, false, 2, [], value⟩ _ [] :=
    passes_pair keyFills valueFills (delimits_value isEnd) holds
  obtain ⟨fuelAt, named', runsAt, namedAt, rfl⟩ := pair.split runs named
  obtain ⟨stored, stores⟩ := exists_stored here isEnd runsAt
  obtain ⟨fuelLeft, later, runsLeft, namedLeft, rfl⟩ :=
    (passes_value_end here isEnd stores).split runsAt namedAt
  exact ⟨stored, fuelLeft, later, stores, runsLeft, namedLeft, rfl⟩

/-- A run goes past any number of pairs, and stores under their keys. -/
theorem pairs_split {pairs : List (Bytes × Bytes)} {rest : Bytes} {requestObj : JsonObject}
    {it fuel : Nat} {last : HttpParse} {all : List Bytes}
    (fills : ∀ pair ∈ pairs, HeadPart.queryKey.Fills pair.1 ∧ HeadPart.queryValue.Fills pair.2)
    (holds : memory.Holds it (pairs.flatMap pairText ++ rest))
    (runs : loop memory heap fuel ⟨requestObj, it, false, 2, [], value⟩ = some last)
    (named : namesStored memory heap fuel ⟨requestObj, it, false, 2, [], value⟩ = some all) :
    ∃ stored cursor lastValue fuelLeft later, memory.Holds cursor rest ∧
      loop memory heap fuelLeft ⟨stored, cursor, false, 2, [], lastValue⟩ = some last ∧
      namesStored memory heap fuelLeft ⟨stored, cursor, false, 2, [], lastValue⟩ = some later ∧
      all = pairs.map Prod.fst ++ later := by
  induction pairs generalizing requestObj it fuel value all with
  | nil => exact ⟨requestObj, it, value, fuel, all, holds, runs, named, rfl⟩
  | cons pair pairs ih =>
      obtain ⟨here, others⟩ := List.forall_mem_cons.mp fills
      simp only [List.flatMap_cons, pairText, List.append_assoc, List.cons_append,
        List.nil_append] at holds
      obtain ⟨keyHolds, equals, afterKey⟩ := Memory.holds_append.mp holds
      obtain ⟨valueHolds, ampersand, restHolds⟩ := Memory.holds_append.mp afterKey
      have pairHolds : memory.Holds it (pair.1 ++ (ch '=' :: (pair.2 ++ [ch '&']))) :=
        Memory.holds_append.mpr
          ⟨keyHolds, equals, Memory.holds_append.mpr ⟨valueHolds, ampersand, trivial⟩⟩
      obtain ⟨stored, fuelAt, namesAt, -, runsAt, namedAt, rfl⟩ :=
        pair_split here.1 here.2 (.inr rfl) pairHolds runs named
      obtain ⟨lastStored, cursor, lastValue, fuelLeft, later, lastHolds, runsLeft, namedLeft, rfl⟩ :=
        ih others restHolds runsAt namedAt
      exact ⟨lastStored, cursor, lastValue, fuelLeft, later, lastHolds, runsLeft, namedLeft, rfl⟩

/-- What a request keeps of the value of a query parameter that holds no JSON. -/
theorem parameter_keeps {method path : Bytes} {pairs : List (Bytes × Bytes)} {request fuel : Nat}
    {kind : RequestResult} {object : JsonObject} (known : method ∈ methods)
    (pathFills : HeadPart.route.Fills path)
    (fills : ∀ pair ∈ pairs, HeadPart.queryKey.Fills pair.1 ∧ HeadPart.queryValue.Fills pair.2)
    (keyFills : HeadPart.queryKey.Fills key) (valueFills : HeadPart.queryValue.Fills raw)
    (isEnd : ends = ch ' ' ∨ ends = ch '&') (noJson : NoJson (decodeValue raw))
    (holds : memory.Holds request (method ++ (ch ' ' :: ch '/' :: (path ++ (ch '?' ::
      (pairs.flatMap pairText ++ (key ++ (ch '=' :: (raw ++ [ends])))))))))
    (runs : parseHttpRequest memory heap request (new .object) fuel = some (kind, object)) :
    ∃ later, namesIn memory heap (start method (request + method.length + 2)) fuel =
        some (pairs.map Prod.fst ++ key :: later) ∧
      (key ∉ later →
        object.hasObj key .string = true ∧ object.getStr key = some (decodeValue raw)) := by
  obtain ⟨-, -, -, textHolds⟩ := Memory.holds_append.mp holds
  obtain ⟨pathHolds, question, queryHolds⟩ := Memory.holds_append.mp textHolds
  rw [parseHttpRequest_start known holds] at runs
  obtain ⟨last, loops, body⟩ := Option.bind_eq_some_iff.mp runs
  obtain ⟨bodyNames, bodyNamed, bodyKept⟩ := parseBody_keeps body
  obtain ⟨all, named⟩ := exists_namesStored loops
  have target : Passes memory heap (start method (request + method.length + 2)) _ _ :=
    (passes_path pathFills (by decide)
      (Memory.holds_append.mpr ⟨pathHolds, question, trivial⟩)).trans (passes_question question)
  obtain ⟨fuelAt, namesAt, runsAt, namedAt, rfl⟩ := target.split loops named
  obtain ⟨stored, cursor, lastValue, fuelLeft, later, lastHolds, runsLeft, namedLeft, rfl⟩ :=
    pairs_split fills queryHolds runsAt namedAt
  obtain ⟨kept, fuelEnd, names, stores, runsEnd, namedEnd, rfl⟩ :=
    pair_split keyFills valueFills isEnd lastHolds runsLeft namedLeft
  cases (storeValue_stable _ _ _ _).unique stores (storeValue_noJson _ stored key noJson)
  have behind : 2 ≤ (behindValue ends (stored.storeString key (decodeValue raw))
      (cursor + key.length + 1 + raw.length) key (decodeValue raw)).state := by
    unfold behindValue
    split
    · exact Nat.le_add_left 2 2
    · exact Nat.le_refl 2
  have object : (behindValue ends (stored.storeString key (decodeValue raw))
      (cursor + key.length + 1 + raw.length) key (decodeValue raw)).requestObj =
        stored.storeString key (decodeValue raw) := by
    unfold behindValue
    split <;> rfl
  obtain ⟨others, namedOthers, headKept⟩ := loop_keeps behind runsEnd
  cases namedEnd.symm.trans namedOthers
  rw [object] at headKept
  have keeps := headKept.trans bodyKept
  refine ⟨names ++ bodyNames, ?_, fun unnamed => ⟨?_, ?_⟩⟩
  · simp only [namesIn, loops, Option.bind_some, named, bodyNamed, Option.map_some,
      List.append_assoc, List.cons_append]
  · rw [keeps.hasObj unnamed, hasObj, storeString, KeyedList.get?_set_self]
    rfl
  · rw [keeps.getStr unnamed, getStr, storeString, KeyedList.get?_set_self]
    rfl

end Keeping

namespace Sample

/-- `GET / HTTP/1.1`, without headers. -/
def bareHead : HttpHead where
  method := bytes "GET"
  path := []
  query := []
  protocol := bytes "HTTP/1.1"
  protocolEnd := .crlf
  headers := []
  blankEnd := .crlf

theorem bareHead_wellFormed : bareHead.WellFormed := by
  constructor <;> decide +kernel

/-- The same with one query parameter. -/
def queryHead (value : Bytes) : HttpHead :=
  { bareHead with query := [(bytes "q", value)] }

theorem queryHead_wellFormed : (queryHead []).WellFormed := by
  constructor <;> decide +kernel

theorem contentType_queryHead (value : Bytes) {contentType : Option Bytes}
    (known : contentType ≠ none) : (queryHead value).contentType ≠ contentType :=
  fun same => known same.symm

end Sample

section Arriving

variable {text : Bytes}

theorem fills_encodeTarget {part : HeadPart} (value : part.ReadsValue) (text : Bytes) :
    part.Fills (encodeTarget text) :=
  ⟨inside_encodeTarget value text, zero_notMem_encodeTarget text⟩

theorem decodePath_encodeTarget (text : Bytes) :
    decodePath (encodeTarget text) = text.flatMap takenAs :=
  decode_encodeTarget .route text

theorem decodeValue_encodeTarget (text : Bytes) :
    decodeValue (encodeTarget text) = text.flatMap takenAs :=
  decode_encodeTarget .queryValue text

/-- A request gives every byte of the path the place of what it is taken as. -/
theorem path_read (text : Bytes) {memory : Memory} (heap : Nat → Memory) {request : Nat}
    {head : HttpHead} (wellFormed : head.WellFormed)
    (notJson : head.contentType ≠ some (bytes "application/json"))
    (notForm : head.contentType ≠ some (bytes "application/x-www-form-urlencoded"))
    (holds : memory.Holds request { head with path := encodeTarget text }.text) :
    Converges (parseHttpRequest memory heap request (new .object))
      (.http, { head with path := text.flatMap takenAs }.object) := by
  rw [← decodePath_encodeTarget]
  exact converges_path wellFormed (fills_encodeTarget (by decide) text) notJson notForm holds

theorem pathOf_encodeTarget (text tail : Bytes) {ends : UInt8}
    (isEnd : ends = ch ' ' ∨ ends = ch '?') :
    pathOf (encodeTarget text ++ ends :: tail) = encodeTarget text := by
  have inside := inside_encodeTarget (show HeadPart.route.ReadsValue by decide) text
  have stays (byte : UInt8) (member : byte ∈ encodeTarget text) :
      decide (byte ≠ ch ' ' ∧ byte ≠ ch '?') = true := by
    simpa [HeadPart.delimiters, bytes] using inside byte member
  rw [pathOf, List.takeWhile_append_of_pos stays]
  rcases isEnd with rfl | rfl <;> simp

theorem storesRoute_iff (text : Bytes) : StoresRoute text ↔ Survives text := by
  rw [← flatMap_takenAs_eq_iff]
  constructor
  · intro stores
    -- One request without headers shows what every byte is taken as.
    have holds := (Memory.holds_append.mp (Memory.ofString_holds (fun _ => 0)
      { Sample.bareHead with path := encodeTarget text }.text)).1
    have stored := stores.returns _ (fun _ _ => 0) 1 Sample.bareHead Sample.bareHead_wellFormed
      (by decide) (by decide) holds
    have read := path_read text (fun _ _ => 0) Sample.bareHead_wellFormed (by decide) (by decide)
      holds
    have same := (parseHttpRequest_stable _ _ _ _).unique read stored
    have routes := congrArg (fun result => result.2.getStr (bytes "route")) same
    exact (List.cons.inj (Option.some.inj routes)).2
  · intro arrives
    refine ⟨?_, ?_⟩
    · intro memory heap request head wellFormed notJson notForm holds
      have read := path_read text heap wellFormed notJson notForm holds
      rwa [arrives] at read
    · intro memory heap request method tail ends fuel kind object known isEnd noZero holds runs
      have nonzero : 0 ∉ encodeTarget text ++ ends :: tail := by
        rw [List.mem_append, List.mem_cons, not_or, not_or]
        refine ⟨zero_notMem_encodeTarget text, ?_, noZero⟩
        rcases isEnd with rfl | rfl <;> decide
      obtain ⟨names, named, -, kept⟩ := keeps_requestLine known nonzero holds runs
      have route : routeOf (encodeTarget text ++ ends :: tail) = ch '/' :: text := by
        rw [routeOf, pathOf_encodeTarget text tail isEnd, if_neg (by simp),
          decodePath_encodeTarget, arrives]
      rw [route] at kept
      exact ⟨names, named, kept⟩

/-- What is read opens no object or array. -/
theorem plain_takenAs (text : Bytes) : ∀ byte ∈ text.flatMap takenAs,
    byte ≠ 0 ∧ byte ≠ ch '{' ∧ byte ≠ ch '[' ∧ byte ≠ ch '\\' := by
  intro written member
  obtain ⟨byte, -, member⟩ := List.mem_flatMap.mp member
  have kinds : unreserved written ∨ written = ch '\n' ∨ written = ch '"' := by
    unfold takenAs at member
    split_ifs at member with survives ampersand
    · exact (List.mem_singleton.mp member ▸ survives).imp id .inl
    · exact .inr (.inr (List.mem_singleton.mp member))
    · exact .inl (unreserved_of_alphanumeric (alphanumeric_of_mem_digits member))
  rcases kinds with plain | rfl | rfl
  · exact ⟨ne_of_unreserved plain (by decide), ne_of_unreserved plain (by decide),
      ne_of_unreserved plain (by decide), ne_of_unreserved plain (by decide)⟩
  · decide
  · decide

theorem eq_ampersand_of_quote {byte : UInt8} (quoted : ch '"' ∈ takenAs byte) :
    byte = ch '&' := by
  unfold takenAs at quoted
  split_ifs at quoted with survives ampersand
  · rw [← List.mem_singleton.mp quoted] at survives
    rcases survives with plain | lineFeed
    · exact absurd rfl (ne_of_unreserved plain (by decide))
    · cases lineFeed
  · exact ampersand
  · exact absurd rfl (ne_of_alphanumeric (alphanumeric_of_mem_digits quoted) (by decide))

theorem storesParameter_iff (noJson : NoJson text) : StoresParameter text ↔ Survives text := by
  have fills := fills_encodeTarget (show HeadPart.queryValue.ReadsValue by decide) text
  rw [← flatMap_takenAs_eq_iff]
  constructor
  · intro stores
    have absent : bytes "q" ∉ reserved ++ ([] : List (Bytes × Bytes)).map Prod.fst := by
      decide
    obtain ⟨kept, storing, whole, part⟩ := exists_storeValue absent (plain_takenAs text)
    rw [← decodeValue_encodeTarget text] at storing
    have holds := (Memory.holds_append.mp (Memory.ofString_holds (fun _ => 0)
      (Sample.queryHead (encodeTarget text)).text)).1
    have stored := stores.returns _ (fun _ _ => 0) 1 (Sample.queryHead []) (bytes "q") []
      Sample.queryHead_wellFormed rfl (Sample.contentType_queryHead text (by simp))
      (Sample.contentType_queryHead text (by simp)) holds
    have read : Converges (parseHttpRequest _ (fun _ _ => 0) 1 (new .object)) _ :=
      converges_query Sample.queryHead_wellFormed rfl fills storing
        (Sample.contentType_queryHead kept (by simp)) (Sample.contentType_queryHead kept (by simp))
        holds
    have same := (parseHttpRequest_stable _ _ _ _).unique read stored
    have values : some kept = some text :=
      congrArg (fun result => result.2.getStr (bytes "q")) same
    cases values
    -- A quote comes from an ampersand, which would be missing in what is kept.
    have unquoted : ch '"' ∉ text.flatMap takenAs := by
      intro quote
      obtain ⟨byte, member, quoted⟩ := List.mem_flatMap.mp quote
      have read := part byte member
      rw [eq_ampersand_of_quote quoted] at read
      obtain ⟨other, -, ampersand⟩ := List.mem_flatMap.mp read
      exact ampersand_notMem_takenAs other ampersand
    exact (whole unquoted).symm
  · intro arrives
    have decoded : decodeValue (encodeTarget text) = text :=
      (decodeValue_encodeTarget text).trans arrives
    refine ⟨?_, ?_⟩
    · intro memory heap request head key value wellFormed query notJson notForm holds
      have absent : key ∉ reserved ++ ([] : List (Bytes × Bytes)).map Prod.fst := by
        have distinct := wellFormed.distinct
        rw [HttpHead.stored, query] at distinct
        intro member
        exact List.disjoint_of_nodup_append distinct (by simpa using member) (by simp)
      refine converges_query wellFormed query fills (fun stale route => ?_) notJson notForm holds
      rw [decoded]
      exact storeValue_requestObject stale absent noJson
    · intro memory heap request method path key pairs ends fuel kind object known pathFills
        pairsFill keyFills isEnd holds runs
      have kept := parameter_keeps known pathFills pairsFill keyFills fills isEnd
        (by rwa [decoded]) holds runs
      rwa [decoded] at kept

/-- A percent-encoded path or query value is stored as what was encoded exactly
when it holds only unreserved bytes and line feeds. -/
theorem stores_encoded_iff (text : Bytes) :
    (StoresRoute text ↔ Survives text) ∧
      (NoJson text → (StoresParameter text ↔ Survives text)) :=
  ⟨storesRoute_iff text, storesParameter_iff⟩

theorem stores_encoded_iff_line :
    StoresRoute (bytes "v1.0_a-b~\n") ∧ StoresParameter (bytes "v1.0_a-b~\n") := by
  have survives : Survives (bytes "v1.0_a-b~\n") := forall_mem_of_all (by decide)
  have noJson : NoJson (bytes "v1.0_a-b~\n") := forall_mem_of_all (by decide)
  obtain ⟨route, parameter⟩ := stores_encoded_iff (bytes "v1.0_a-b~\n")
  exact ⟨route.mpr survives, (parameter noJson).mpr survives⟩

/-- The space of `a b` arrives as the digits of its code, in a route and in a
query value, and the ampersand of `a&b` as a quote, which opens a string. -/
theorem not_stores_encoded :
    encodeTarget (bytes "a b") = bytes "a%20b" ∧
      Sample.lineOf (bytes "a%20b HTTP/1.1\r\n\r\n") =
        some (some (bytes "GET"), some (bytes "/a20b")) ∧
      Sample.lineOf (bytes "?route=a%20b HTTP/1.1\r\n\r\n") =
        some (some (bytes "GET"), some (bytes "a20b")) ∧
      Sample.lineOf (bytes "?route=a%26b HTTP/1.1\r\n\r\n") =
        some (some (bytes "GET"), some (bytes "/")) ∧
      ¬ StoresRoute (bytes "a b") ∧ NoJson (bytes "a b") ∧ ¬ StoresParameter (bytes "a b") := by
  have noJson : NoJson (bytes "a b") := forall_mem_of_all (by decide)
  have lost : ¬ Survives (bytes "a b") := by
    intro survives
    have space := survives (ch ' ') (by decide)
    revert space
    decide
  refine ⟨by decide +kernel, by decide +kernel, by decide +kernel, by decide +kernel, ?_, noJson,
    ?_⟩
  · exact fun stores => lost ((storesRoute_iff _).mp stores)
  · exact fun stores => lost ((storesParameter_iff noJson).mp stores)

end Arriving

end Libjaypea
