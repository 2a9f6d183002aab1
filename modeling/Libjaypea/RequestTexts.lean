import Libjaypea.HttpRequestHead
import Libjaypea.PureRequests

/-!
# The texts of an API request

The same method, path and parameters as a JSON text and as an HTTP request
with a JSON body: the parser makes twins of them, and the dispatch serves the
twins alike exactly when neither of them gets as far as a handler.
-/

namespace Libjaypea

open Fuelled JsonObject HttpHead
open StandardJson (Whitespace whitespace_nil)

namespace HttpApi

/-- What a client asks for: a method, a path behind its first slash, strings
that HTTP may carry in its query or its headers, and JSON parameters. -/
structure ApiRequest where
  method : Bytes
  path : Bytes
  strings : List (Bytes × Bytes)
  parameters : List (Bytes × JsonObject)

namespace ApiRequest

variable (request : ApiRequest)

def stringMembers : List (Bytes × JsonObject) :=
  request.strings.map fun pair => (pair.1, ofString pair.2)

/-- All of it as members of one object. -/
def members : List (Bytes × JsonObject) :=
  (bytes "method", ofString request.method) ::
    (bytes "route", ofString (ch '/' :: request.path)) ::
      (request.stringMembers ++ request.parameters)

structure WellFormed : Prop where
  distinct : (KeyedList.keys request.members).Nodup
  members : WellFormedMembers request.members

/-- A JSON text whose members are those of the request, in any order. -/
def PureText (text : Bytes) : Prop :=
  ∃ ordered before body after, request.members.Perm ordered ∧ Whitespace before ∧
    RendersMembers ordered body ∧ text = before ++ (ch '{' :: (body ++ [ch '}'])) ++ after

/-- An HTTP request with the parameters in its JSON body. -/
def HttpText (text : Bytes) : Prop :=
  ∃ head : HttpHead, ∃ ordered before body after, head.WellFormed ∧
    head.method = request.method ∧ head.path = request.path ∧ head.protocol ≠ [] ∧
    head.stored.Perm ((bytes "Content-Type", bytes "application/json") :: request.strings) ∧
    request.parameters.Perm ordered ∧ Whitespace before ∧ RendersMembers ordered body ∧
    text = head.text ++ (before ++ (ch '{' :: (body ++ [ch '}'])) ++ after)

end ApiRequest

/-- The members that `parse_http_request` starts from. -/
def initialMembers : List (Bytes × JsonObject) :=
  [(bytes "method", ofString (bytes "GET")), (bytes "route", new .string),
    (bytes "protocol", ofString (bytes "JPON"))]

section Texts

variable {memory : Memory} {heap : Nat → Memory} {start : Nat}

/-- White space and a brace begin no HTTP start line. -/
theorem httpStart_eq_none {byte : UInt8} (here : memory start = byte)
    (other : byte ∉ bytes "GHPD") : HttpParse.httpStart memory start = none := by
  have starts : ∀ literal first, literal.head? = some first → first ∈ bytes "GHPD" →
      ¬ HttpParse.requestStartsWith memory start literal = true := by
    intro literal first begins known starts
    cases literal with
    | nil => cases begins
    | cons head rest =>
        cases begins
        rw [HttpParse.requestStartsWith_iff start (List.cons_ne_nil _ _)] at starts
        rw [← here, starts.1] at other
        exact other known
  have get := starts (bytes "GET /") _ rfl (by decide)
  have head := starts (bytes "HEAD /") _ rfl (by decide)
  have post := starts (bytes "POST /") _ rfl (by decide)
  have delete := starts (bytes "DELETE /") _ rfl (by decide)
  have put := starts (bytes "PUT /") _ rfl (by decide)
  unfold HttpParse.httpStart
  rw [if_neg get, if_neg head, if_neg post, if_neg delete, if_neg put]

/-- A rendered object is read as a pure request. -/
theorem parseHttpRequest_pure {ordered : List (Bytes × JsonObject)} {before body : Bytes}
    (spaces : Whitespace before) (wellFormed : WellFormedMembers ordered)
    (renders : RendersMembers ordered body)
    (holds : memory.Holds start (before ++ (ch '{' :: (body ++ [ch '}'])))) :
    Converges (parseHttpRequest memory heap start (new .object))
      (.api, ⟨.object, [], KeyedList.setAll initialMembers ordered, []⟩) := by
  have unstarted : HttpParse.httpStart memory start = none := by
    cases before with
    | nil => exact httpStart_eq_none holds.1 (by decide)
    | cons byte rest =>
        apply httpStart_eq_none holds.1
        rcases StandardJson.eq_of_isSpace (spaces byte List.mem_cons_self) with rfl | rfl | rfl | rfl <;> decide
  obtain ⟨cursor, parses⟩ : ∃ cursor,
      Converges (JsonObject.parse memory ⟨.object, [], initialMembers, []⟩ start)
        (⟨.object, [], KeyedList.setAll initialMembers ordered, []⟩, cursor) :=
    parse_object_body spaces wellFormed renders holds
  have unfolded : parseHttpRequest memory heap start (new .object) = fun fuel =>
      (JsonObject.parse memory ⟨.object, [], initialMembers, []⟩ start fuel).map
        fun result => (.api, result.1) := by
    funext fuel
    simp only [parseHttpRequest, unstarted]
    rfl
  rw [unfolded, converges_map]
  exact ⟨_, parses, rfl⟩

section Members

variable {request : ApiRequest} {head : HttpHead} {key : Bytes}

theorem get?_members (notMethod : bytes "method" ≠ key) (notRoute : bytes "route" ≠ key) :
    KeyedList.get? request.members key =
      ((KeyedList.get? request.strings key).map ofString).or
        (KeyedList.get? request.parameters key) := by
  rw [ApiRequest.members, KeyedList.get?_cons, if_neg notMethod, KeyedList.get?_cons,
    if_neg notRoute, KeyedList.get?_append, ApiRequest.stringMembers, KeyedList.get?_map]

theorem get?_head_object (notMethod : bytes "method" ≠ key) (notRoute : bytes "route" ≠ key)
    (notProtocol : bytes "protocol" ≠ key) :
    KeyedList.get? head.object.objectValues key =
      (KeyedList.get? head.stored key).map ofString := by
  rw [HttpHead.object, requestObject, KeyedList.get?_append, KeyedList.get?_map,
    KeyedList.get?_cons, if_neg notMethod, KeyedList.get?_cons, if_neg notRoute,
    KeyedList.get?_cons, if_neg notProtocol]
  rfl

theorem keys_members : KeyedList.keys request.members =
    bytes "method" :: bytes "route" ::
      (KeyedList.keys request.strings ++ KeyedList.keys request.parameters) := by
  simp [ApiRequest.members, ApiRequest.stringMembers, KeyedList.keys, Function.comp_def]

/-- No key is sent twice. -/
theorem ApiRequest.WellFormed.apart (wellFormed : request.WellFormed) (key : Bytes) :
    KeyedList.get? request.strings key = none ∨ KeyedList.get? request.parameters key = none := by
  have distinct := wellFormed.distinct
  rw [keys_members, List.nodup_cons, List.nodup_cons, List.nodup_append] at distinct
  rw [KeyedList.get?_eq_none_iff, KeyedList.get?_eq_none_iff]
  by_contra both
  push Not at both
  exact distinct.2.2.2.2 key both.1 key both.2 rfl

theorem ApiRequest.WellFormed.nodup_parameters (wellFormed : request.WellFormed) :
    (KeyedList.keys request.parameters).Nodup := by
  have distinct := wellFormed.distinct
  rw [keys_members, List.nodup_cons, List.nodup_cons, List.nodup_append] at distinct
  exact distinct.2.2.2.1

/-- The body of an HTTP request leaves the method and the route alone. -/
theorem ApiRequest.WellFormed.unreserved (wellFormed : request.WellFormed) :
    KeyedList.get? request.parameters (bytes "method") = none ∧
      KeyedList.get? request.parameters (bytes "route") = none := by
  have distinct := wellFormed.distinct
  simp only [keys_members, List.nodup_cons, List.mem_cons, List.mem_append, not_or] at distinct
  rw [KeyedList.get?_eq_none_iff, KeyedList.get?_eq_none_iff]
  exact ⟨distinct.1.2.2, distinct.2.1.2⟩

/-- The strings are none of the members that HTTP itself stores. -/
theorem strings_unframed (headWellFormed : head.WellFormed)
    (stored : head.stored.Perm
      ((bytes "Content-Type", bytes "application/json") :: request.strings)) :
    KeyedList.get? request.strings (bytes "protocol") = none ∧
      KeyedList.get? request.strings (bytes "Content-Type") = none := by
  have distinct := ((stored.map Prod.fst).append_left reserved).nodup_iff.mp
    headWellFormed.distinct
  simp only [reserved, List.map_cons, List.cons_append, List.nil_append, List.nodup_cons,
    List.mem_cons, not_or] at distinct
  rw [KeyedList.get?_eq_none_iff, KeyedList.get?_eq_none_iff]
  exact ⟨distinct.2.2.1.2, distinct.2.2.2.1⟩

/-- The two objects hold the same members, in whatever order they were sent. -/
theorem twins_of_members (wellFormed : request.WellFormed)
    (headWellFormed : head.WellFormed) (method : head.method = request.method)
    (path : head.path = request.path) (protocol : head.protocol ≠ [])
    (stored : head.stored.Perm
      ((bytes "Content-Type", bytes "application/json") :: request.strings))
    {pureOrdered httpOrdered : List (Bytes × JsonObject)}
    (pureOrder : request.members.Perm pureOrdered)
    (httpOrder : request.parameters.Perm httpOrdered) :
    Twins ⟨.object, [], KeyedList.setAll initialMembers pureOrdered, []⟩
      ⟨.object, [], KeyedList.setAll head.object.objectValues httpOrdered, []⟩ := by
  have headDistinct : (KeyedList.keys head.stored).Nodup :=
    (List.nodup_append.mp headWellFormed.distinct).2.1
  have pureGet : ∀ key, KeyedList.get? (KeyedList.setAll initialMembers pureOrdered) key =
      (KeyedList.get? request.members key).or (KeyedList.get? initialMembers key) :=
    KeyedList.get?_setAll_of_perm wellFormed.distinct pureOrder
  have httpGet : ∀ key,
      KeyedList.get? (KeyedList.setAll head.object.objectValues httpOrdered) key =
        (KeyedList.get? request.parameters key).or
          (KeyedList.get? head.object.objectValues key) :=
    KeyedList.get?_setAll_of_perm wellFormed.nodup_parameters httpOrder
  obtain ⟨noMethod, noRoute⟩ := wellFormed.unreserved
  obtain ⟨noProtocol, noContentType⟩ := strings_unframed headWellFormed stored
  constructor
  · intro key asked
    simp only [framing, List.mem_cons, List.not_mem_nil, or_false, not_or] at asked
    rw [pureGet, httpGet]
    by_cases isMethod : bytes "method" = key
    · subst isMethod
      rw [noMethod]
      change some (ofString request.method) = some (ofString head.method)
      rw [method]
    by_cases isRoute : bytes "route" = key
    · subst isRoute
      rw [noRoute]
      change some (ofString (ch '/' :: request.path)) = some (ofString (ch '/' :: head.path))
      rw [path]
    have uninitialised : KeyedList.get? initialMembers key = none := by
      simp [initialMembers, KeyedList.get?_cons, isMethod, isRoute, Ne.symm asked.1]
    rw [get?_members isMethod isRoute, get?_head_object isMethod isRoute (Ne.symm asked.1),
      uninitialised, KeyedList.get?_of_perm headDistinct stored, KeyedList.get?_cons,
      if_neg (Ne.symm asked.2), Option.or_none]
    rcases wellFormed.apart key with none | none
    · simp [none]
    · simp [none]
  · simp only [pureGet, httpGet]
    rw [get?_members (by decide) (by decide), noProtocol]
    cases sent : KeyedList.get? request.parameters (bytes "protocol") with
    | some value => exact .inl rfl
    | none =>
        right
        constructor
        · apply hasText_of_get? _ (by decide : bytes "JPON" ≠ [])
          rw [pureGet, get?_members (by decide) (by decide), noProtocol, sent]
          rfl
        · apply hasText_of_get? _ protocol
          rw [httpGet, sent]
          rfl
  · simp only [pureGet, httpGet]
    rw [get?_members (by decide) (by decide), noContentType]
    cases sent : KeyedList.get? request.parameters (bytes "Content-Type") with
    | some value => exact .inl rfl
    | none => exact .inr rfl

end Members

variable {otherMemory : Memory} {otherHeap : Nat → Memory} {otherStart : Nat}

/-- A pure text and an HTTP text for the same request are parsed to twins. -/
theorem twins_of_texts {request : ApiRequest} (wellFormed : request.WellFormed)
    {pureText httpText : Bytes} (pureSent : request.PureText pureText)
    (httpSent : request.HttpText httpText) (pureHolds : memory.Holds start pureText)
    (httpHolds : otherMemory.Holds otherStart httpText) :
    ∃ pureRequest httpRequest,
      Converges (parseHttpRequest memory heap start (new .object)) (.api, pureRequest) ∧
        Converges (parseHttpRequest otherMemory otherHeap otherStart (new .object))
          (.httpApi, httpRequest) ∧
          Twins pureRequest httpRequest := by
  obtain ⟨pureOrdered, pureBefore, pureBody, pureAfter, pureOrder, pureSpaces, pureRenders, rfl⟩ :=
    pureSent
  obtain ⟨head, httpOrdered, httpBefore, httpBody, httpAfter, headWellFormed, method, path,
    protocol, stored, httpOrder, httpSpaces, httpRenders, rfl⟩ := httpSent
  have members := wellFormed.members
  have pureMembers : WellFormedMembers pureOrdered := by
    rw [wellFormedMembers_iff] at members ⊢
    intro sent member
    exact members sent (pureOrder.mem_iff.mpr member)
  have httpMembers : WellFormedMembers httpOrdered := by
    rw [wellFormedMembers_iff] at members ⊢
    intro sent member
    have parameter : sent ∈ request.parameters := httpOrder.mem_iff.mpr member
    exact members sent (by simp [ApiRequest.members, parameter])
  obtain ⟨headHolds, bodyHolds⟩ := Memory.holds_append.mp httpHolds
  have json : head.contentType = some (bytes "application/json") := by
    have distinct : (KeyedList.keys head.stored).Nodup :=
      (List.nodup_append.mp headWellFormed.distinct).2.1
    rw [HttpHead.contentType, KeyedList.get?_of_perm distinct stored]
    rfl
  refine ⟨_, _, parseHttpRequest_pure pureSpaces pureMembers pureRenders
      (Memory.holds_append.mp pureHolds).1,
    parseHttpRequest_json otherHeap headWellFormed headHolds json httpSpaces httpMembers httpRenders
      (Memory.holds_append.mp bodyHolds).1, ?_⟩
  exact twins_of_members wellFormed headWellFormed method path protocol stored pureOrder httpOrder

/-- The encoder writes a pure text. -/
theorem ApiRequest.WellFormed.pureText_stringify {request : ApiRequest}
    (wellFormed : request.WellFormed) (pretty : Bool) :
    request.PureText (stringify pretty 0 ⟨.object, [], request.members, []⟩) := by
  have tree : JsonObject.WellFormed ⟨.object, [], request.members, []⟩ := by
    simp only [JsonObject.WellFormed, wellFormed.members, wellFormed.distinct, and_self]
  have renders := stringify_renders pretty 0 tree
  simp only [Renders] at renders
  obtain ⟨body, members, text⟩ := renders
  refine ⟨_, [], body, [], .refl _, whitespace_nil, members, ?_⟩
  simpa using text

end Texts

/-- A request is parsed to twins from its two texts, and twins are served alike
exactly when they stop before the handlers. -/
theorem equivalent_iff_stopsEarly (services : Services) (system : System σ) {api : HttpApi σ}
    (reachable : Reachable api) (apiOnly : Routes (fun _ route => route.formFunction = none) api)
    (world : World σ) (fd : Int) :
    (∀ request : ApiRequest, request.WellFormed → ∀ pureText httpText, request.PureText pureText →
      request.HttpText httpText → ∀ memory otherMemory : Memory, memory.Holds 1 pureText →
        otherMemory.Holds 1 httpText → ∀ heap otherHeap, ∃ pureRequest httpRequest,
          Converges (parseHttpRequest memory heap 1 (new .object)) (.api, pureRequest) ∧
            Converges (parseHttpRequest otherMemory otherHeap 1 (new .object))
              (.httpApi, httpRequest) ∧ Twins pureRequest httpRequest) ∧
      ∀ pureRequest httpRequest, Twins pureRequest httpRequest →
        (Equivalent services system api world fd pureRequest httpRequest ↔
          StopsEarly services api pureRequest httpRequest) := by
  constructor
  · intro request wellFormed pureText httpText pureSent httpSent memory otherMemory pureHolds
      httpHolds heap otherHeap
    exact twins_of_texts wellFormed pureSent httpSent pureHolds httpHolds
  · intro pureRequest httpRequest twins
    constructor
    · exact stopsEarly_of_equivalent reachable apiOnly twins
    · exact equivalent_of_stopsEarly twins

namespace Sample

def itemRequest : ApiRequest :=
  ⟨bytes "GET", bytes "api/item", [], [(bytes "id", ofString (bytes "1"))]⟩

theorem wellFormed_itemRequest : itemRequest.WellFormed := by
  constructor
  · decide +kernel
  · rw [wellFormedMembers_iff]
    simp only [itemRequest, ApiRequest.members, ApiRequest.stringMembers, ofString, List.map_nil,
      List.nil_append, List.mem_cons, List.not_mem_nil, or_false, forall_eq_or_imp, forall_eq,
      JsonObject.WellFormed]
    decide +kernel

def pureItemOne : Memory :=
  Memory.ofString (fun _ => 0)
    (bytes "\x7b\"method\":\"GET\",\"route\":\"/api/item\",\"id\":\"1\"\x7d")

def itemHead : HttpHead where
  method := bytes "GET"
  path := bytes "api/item"
  query := []
  protocol := bytes "HTTP/1.1"
  protocolEnd := .crlf
  headers := [⟨bytes "Content-Type", bytes "application/json", .crlf⟩]
  blankEnd := .crlf

/-- The item request, as a JSON text and with HTTP around it. -/
theorem twins_itemOne :
    ∃ pureRequest httpRequest,
      Converges (parseHttpRequest pureItemOne (fun _ _ => 0) 1 (new .object))
        (.api, pureRequest) ∧
      Converges (parseHttpRequest itemOne (fun _ _ => 0) 1 (new .object))
        (.httpApi, httpRequest) ∧
      Twins pureRequest httpRequest := by
  have pureText : stringify false 0 ⟨.object, [], itemRequest.members, []⟩ =
      bytes "\x7b\"method\":\"GET\",\"route\":\"/api/item\",\"id\":\"1\"\x7d" := by
    decide +kernel
  have pureSent := wellFormed_itemRequest.pureText_stringify false
  rw [pureText] at pureSent
  have parameters : JsonObject.WellFormed ⟨.object, [], itemRequest.parameters, []⟩ := by
    simp only [itemRequest, ofString, JsonObject.WellFormed, WellFormedMembers]
    decide +kernel
  have renders := stringify_renders false 0 parameters
  simp only [Renders] at renders
  obtain ⟨body, members, text⟩ := renders
  have httpText : bytes
      "GET /api/item HTTP/1.1\r\nContent-Type: application/json\r\n\r\n\x7b\"id\":\"1\"\x7d" =
        itemHead.text ++ ([] ++ (ch '{' :: (body ++ [ch '}'])) ++ []) := by
    rw [List.nil_append, List.append_nil, ← text]
    decide +kernel
  have httpSent : itemRequest.HttpText (bytes
      "GET /api/item HTTP/1.1\r\nContent-Type: application/json\r\n\r\n\x7b\"id\":\"1\"\x7d") := by
    refine ⟨itemHead, _, [], body, [], ?_, rfl, rfl, by decide, .refl _, .refl _, whitespace_nil,
      members, httpText⟩
    constructor <;> decide +kernel
  exact twins_of_texts wellFormed_itemRequest pureSent httpSent
    (Memory.holds_append.mp (Memory.ofString_holds _ _)).1
    (Memory.holds_append.mp (Memory.ofString_holds _ _)).1

theorem reachable_items : Reachable items :=
  .route (.start _ _) _ _ _ _ _ _

theorem apiOnly_items : Routes (fun _ route => route.formFunction = none) items := by
  intro key route registered
  cases List.mem_singleton.mp (KeyedList.mem_of_get? registered)
  rfl

/-- The HTTP request passes the gates of the item route. -/
theorem due_itemOne {pureRequest httpRequest : JsonObject}
    (parses : Converges (parseHttpRequest itemOne (fun _ _ => 0) 1 (new .object))
      (.httpApi, httpRequest)) :
    ¬ StopsEarly services items pureRequest httpRequest := by
  have facts : (parseHttpRequest itemOne (fun _ _ => 0) 1 (new .object) 80).any (fun parsed =>
      let served := withSession services items parsed.2
      decide (routeKey .httpApi served = bytes "GET /api/item/") &&
        accepts served (bytes "id", .string)) = true := by
    decide +kernel
  obtain ⟨parsed, known, holds⟩ := (Option.any_eq_true _ _).mp facts
  have same := (parseHttpRequest_stable itemOne (fun _ _ => 0) 1 (new .object)).unique
    parses ⟨80, known⟩
  rw [← same, Bool.and_eq_true, decide_eq_true_eq, accepts_iff] at holds
  obtain ⟨key, typed, nonempty⟩ := holds
  intro early
  have registered : KeyedList.get? (opened services items httpRequest).routemap
      (bytes "GET /api/item/") = KeyedList.get? items.routemap (bytes "GET /api/item/") := by
    rw [opened_routemap]
  have captcha : bytes "GET /api/item/" ≠ captchaRouteKey := by
    decide
  rw [StopsEarly, Stops, key] at early
  refine (early captcha _ (registered.trans rfl)).1 ⟨by decide, ?_, ?_, fun human => by cases human⟩
  · intro required member
    cases List.mem_singleton.mp member
    exact typed
  · intro required member
    cases List.mem_singleton.mp member
    exact nonempty

end Sample

theorem equivalent_iff_stopsEarly_itemOne :
    ∃ pureRequest httpRequest,
      Converges (parseHttpRequest Sample.pureItemOne (fun _ _ => 0) 1 (new .object))
        (.api, pureRequest) ∧
      Converges (parseHttpRequest Sample.itemOne (fun _ _ => 0) 1 (new .object))
        (.httpApi, httpRequest) ∧
      (Equivalent Sample.services Sample.system Sample.items ⟨(), []⟩ 5 pureRequest httpRequest ↔
        StopsEarly Sample.services Sample.items pureRequest httpRequest) := by
  obtain ⟨pureRequest, httpRequest, pureParses, httpParses, twins⟩ := Sample.twins_itemOne
  have alike := equivalent_iff_stopsEarly Sample.services Sample.system Sample.reachable_items
    Sample.apiOnly_items ⟨(), []⟩ 5
  exact ⟨pureRequest, httpRequest, pureParses, httpParses, alike.2 _ _ twins⟩

/-- The item request is served by its handler with HTTP around it, and answered
by `respond_404` without. -/
theorem exists_twins_not_equivalent :
    ∃ pureRequest httpRequest,
      Converges (parseHttpRequest Sample.pureItemOne (fun _ _ => 0) 1 (new .object))
        (.api, pureRequest) ∧
      Converges (parseHttpRequest Sample.itemOne (fun _ _ => 0) 1 (new .object))
        (.httpApi, httpRequest) ∧
      Twins pureRequest httpRequest ∧ Reachable Sample.items ∧
      Routes (fun _ route => route.formFunction = none) Sample.items ∧
      ¬ Equivalent Sample.services Sample.system Sample.items ⟨(), []⟩ 5 pureRequest
        httpRequest := by
  obtain ⟨pureRequest, httpRequest, pureParses, httpParses, twins⟩ := Sample.twins_itemOne
  refine ⟨pureRequest, httpRequest, pureParses, httpParses, twins, Sample.reachable_items,
    Sample.apiOnly_items, fun equivalent => ?_⟩
  exact Sample.due_itemOne httpParses
    (stopsEarly_of_equivalent Sample.reachable_items Sample.apiOnly_items twins equivalent)

end HttpApi

end Libjaypea
