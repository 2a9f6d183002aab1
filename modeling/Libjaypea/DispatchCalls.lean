import Libjaypea.DispatchGates

/-!
# Handlers run behind their gates

Every call of a handler, in every reachable state, is made for an admitted
request that names the route; only the form handler of the default route can
be reached by a request that names no route at all.
-/

namespace Libjaypea

open Fuelled

namespace HttpApi

variable {σ : Type}

/-- The route has a handler of this kind. -/
def Has (route : Route σ) : Handler → Prop
  | .function => route.function ≠ none
  | .formFunction => route.formFunction ≠ none
  | .tokenFunction => route.tokenFunction ≠ none

/-- The method and the route of the request make the key, up to the slash that
ends an API key. -/
def Names (kind : RequestResult) (request : JsonObject) (key : Bytes) : Prop :=
  request.hasObj (bytes "method") .string = true ∧ request.hasObj (bytes "route") .string = true ∧
    key =
      if kind = .httpApi then
        endWithSlash (request.str (bytes "method") ++ ch ' ' :: request.str (bytes "route"))
      else request.str (bytes "method") ++ ch ' ' :: request.str (bytes "route")

/-- What holds of the call of a handler for a request under its session. -/
structure Gated (services : Services) (api : HttpApi σ) (kind : RequestResult)
    (request : JsonObject) (call : Call) : Prop where
  request_eq : call.request = request
  kind_eq : kind = if call.handler = .formFunction then .httpForm else .httpApi
  key_eq : call.routeKey = routeKey kind request
  admitted : ∃ route, KeyedList.get? api.routemap call.routeKey = some route ∧
    Has route call.handler ∧ Admitted services (sessionOf api request) request route ∧
      (route.requiresHuman = true → call.captcha = [])
  token : call.handler = .tokenFunction →
    ∃ text parsed it, SymmetricEncryptor.decrypt services.crypto
        (JsonObject.deescape (request.str (bytes "token"))) = some text ∧
      Converges (JsonObject.parse (Memory.ofString services.stale text) (.new .notype) 1)
        (parsed, it) ∧ call.token = some parsed

/-- What `invoke` does with the handlers of a route. -/
inductive Invoked (services : Services) (api : HttpApi σ) (id key : Bytes) (request : JsonObject)
    (route : Route σ) : RequestResult → List Call → Prop
  | none (kind : RequestResult) : Invoked services api id key request route kind []
  | form (has : route.formFunction ≠ none) : Invoked services api id key request route .httpForm
      [api.call id key request .formFunction none]
  | function (has : route.function ≠ none) : Invoked services api id key request route .httpApi
      [api.call id key request .function none]
  | token (has : route.tokenFunction ≠ none) {text : Bytes} {parsed : JsonObject} {it : Nat}
      (decrypts : SymmetricEncryptor.decrypt services.crypto
        (JsonObject.deescape (request.str (bytes "token"))) = some text)
      (parses : Converges
        (JsonObject.parse (Memory.ofString services.stale text) (.new .notype) 1) (parsed, it)) :
      Invoked services api id key request route .httpApi
        [api.call id key request .tokenFunction (some parsed)]

theorem invoke_cases {services : Services} {api : HttpApi σ} {state : σ} {id key : Bytes}
    {request : JsonObject} {response : HttpResponse} {kind : RequestResult} {view : View}
    {route : Route σ} {fuel : Nat} {dispatched : Dispatched σ}
    (runs : invoke services api state id key request response kind view route fuel =
      some dispatched) :
    dispatched.api = api ∧ Invoked services api id key request route kind dispatched.calls := by
  cases kind with
  | http =>
      cases runs
      exact ⟨rfl, .none _⟩
  | api =>
      cases runs
      exact ⟨rfl, .none _⟩
  | httpForm =>
      simp only [invoke, invokeForm, Option.some.injEq] at runs
      cases form : route.formFunction with
      | none =>
          simp only [form] at runs
          cases runs
          exact ⟨rfl, .none _⟩
      | some formFunction =>
          simp only [form] at runs
          cases runs
          exact ⟨rfl, .form (by simp [form])⟩
  | httpApi =>
      simp only [invoke, invokeApi] at runs
      cases function : route.function with
      | some function' =>
          simp only [function] at runs
          cases runs
          exact ⟨rfl, .function (by simp [function])⟩
      | none =>
          cases token : route.tokenFunction with
          | none =>
              simp only [function, token] at runs
              cases runs
              exact ⟨rfl, .none _⟩
          | some tokenFunction =>
              simp only [function, token, invokeToken] at runs
              split at runs
              · cases runs
                exact ⟨rfl, .none _⟩
              · split at runs
                · cases runs
                  exact ⟨rfl, .none _⟩
                · rename_i decrypts
                  obtain ⟨⟨parsed, it⟩, parses, rfl⟩ := Option.map_eq_some_iff.mp runs
                  exact ⟨rfl, .token (by simp [token]) decrypts ⟨fuel, parses⟩⟩

theorem checkHuman_routemap (api : HttpApi σ) (id : Bytes) (kind : RequestResult)
    (request : JsonObject) (view : View) (response : HttpResponse) (route : Route σ) :
    (checkHuman api id kind request view response route).1.routemap = api.routemap := by
  unfold checkHuman
  split_ifs <;> rfl

/-- The gates touch the routes only to record the call. -/
theorem gates_routemap {services : Services} {api after : HttpApi σ} {id : Bytes}
    {kind : RequestResult} {request : JsonObject} {view : View} {response : HttpResponse}
    {key : Bytes} {route : Route σ} {result : Except Ending View}
    (runs : gates services api id kind request view response key route = (after, result)) :
    after.routemap = api.routemap ∨
      after.routemap = (recordCall services api key route).routemap := by
  unfold gates at runs
  dsimp only at runs
  split at runs
  · cases runs
    exact .inl rfl
  · split at runs
    · cases runs
      exact .inl rfl
    · right
      split at runs
      · cases runs
        rfl
      · have kept := checkHuman_routemap (recordCall services api key route) id kind request
          { view with parameters := ‹List (Bytes × Bytes)› } response route
        rwa [runs] at kept

/-- What is invoked on an admitted route is gated. -/
theorem Invoked.gated {services : Services} {api after : HttpApi σ} {kind : RequestResult}
    {request : JsonObject} {route : Route σ} {calls : List Call}
    (invoked : Invoked services after (request.str sessionKey) (routeKey kind request) request route
      kind calls)
    (routed : KeyedList.get? api.routemap (routeKey kind request) = some route)
    (admitted : Admitted services (sessionOf api request) request route)
    (cleared : route.requiresHuman = true →
      (after.session (request.str sessionKey)).captcha = []) :
    ∀ call ∈ calls, Gated services api kind request call := by
  cases invoked with
  | none => simp
  | form has =>
      intro call member
      cases List.mem_singleton.mp member
      exact ⟨rfl, rfl, rfl, ⟨route, routed, has, admitted, cleared⟩, fun token => by cases token⟩
  | function has =>
      intro call member
      cases List.mem_singleton.mp member
      exact ⟨rfl, rfl, rfl, ⟨route, routed, has, admitted, cleared⟩, fun token => by cases token⟩
  | token has decrypts parses =>
      intro call member
      cases List.mem_singleton.mp member
      exact ⟨rfl, rfl, rfl, ⟨route, routed, has, admitted, cleared⟩,
        fun _ => ⟨_, _, _, decrypts, parses, rfl⟩⟩

/-- A handler is called only behind the gates, and the routes change only by
the record of the call. -/
theorem dispatchIn_cases {services : Services} {api : HttpApi σ} {state : σ} {kind : RequestResult}
    {request : JsonObject} {fuel : Nat} {dispatched : Dispatched σ}
    (runs : dispatchIn services api state kind request fuel = some dispatched) :
    (∀ call ∈ dispatched.calls, Gated services api kind request call) ∧
      (dispatched.api.routemap = api.routemap ∨
        ∃ key route, KeyedList.get? api.routemap key = some route ∧
          dispatched.api.routemap = (recordCall services api key route).routemap) := by
  by_cases gated : kind = .http
  · subst gated
    rw [dispatchIn_http] at runs
    cases runs
    exact ⟨by simp, .inl rfl⟩
  by_cases key : routeKey kind request = captchaRouteKey
  · rw [dispatchIn_captcha services api state fuel gated key] at runs
    cases runs
    exact ⟨by simp, .inl rfl⟩
  cases routed : KeyedList.get? api.routemap (routeKey kind request) with
  | none =>
      rw [dispatchIn_unrouted services api state fuel gated key routed] at runs
      cases runs
      exact ⟨by simp, .inl rfl⟩
  | some route =>
      have record : ∀ after : HttpApi σ,
          (after.routemap = api.routemap ∨ after.routemap =
            (recordCall services api (routeKey kind request) route).routemap) →
          (after.routemap = api.routemap ∨
            ∃ key route, KeyedList.get? api.routemap key = some route ∧
              after.routemap = (recordCall services api key route).routemap) := by
        rintro after (same | recorded)
        · exact .inl same
        · exact .inr ⟨_, route, routed, recorded⟩
      cases passes : gates services api (request.str sessionKey) kind request
          (requestedView request) (sessionResponse request) (routeKey kind request) route with
      | mk after result =>
          have routes := record after (gates_routemap passes)
          cases result with
          | error ending =>
              rw [dispatchIn_refused services api state fuel gated key routed passes] at runs
              cases runs
              exact ⟨by simp, routes⟩
          | ok view =>
              rw [dispatchIn_passed services api state fuel gated key routed passes] at runs
              obtain ⟨same, invoked⟩ := invoke_cases runs
              rw [same]
              refine ⟨?_, routes⟩
              have complete : ∀ required ∈ route.requiredParameters, ¬ Lacks request required := by
                intro required member lacks
                rw [gates_of_lacks services api _ kind request _ _ _ route member lacks] at passes
                cases passes
              rcases gates_cases services api (request.str sessionKey) kind request
                (requestedView request) (sessionResponse request) (routeKey kind request) route
                complete with ⟨other, reply, equal, -⟩ | ⟨other, passed, equal, admitted, cleared⟩
              · rw [passes] at equal
                cases equal
              · rw [passes] at equal
                cases equal
                exact invoked.gated routed admitted cleared

/-- The states of the API: routes are registered and requests are served, in
any order and by any number of clients. -/
inductive Reachable : HttpApi σ → Prop
  | start (publicDirectory : Bytes) (fileCacheRemainingBytes : Int) :
      Reachable ⟨publicDirectory, [], fileCacheRemainingBytes, false, [], []⟩
  | formRoute {api : HttpApi σ} (reachable : Reachable api) (method path : Bytes)
      (function : JsonObject → σ → View × σ) (requiredParameters : List (Bytes × JsonType))
      (rateLimit : Int) (requiresHuman : Bool) :
      Reachable (api.formRoute method path function requiredParameters rateLimit requiresHuman)
  | route {api : HttpApi σ} (reachable : Reachable api) (method path : Bytes)
      (function : JsonObject → σ → Bytes × σ) (requiredParameters : List (Bytes × JsonType))
      (rateLimit : Int) (requiresHuman : Bool) :
      Reachable (api.route method path function requiredParameters rateLimit requiresHuman)
  | authenticatedRoute {api : HttpApi σ} (reachable : Reachable api) (method path : Bytes)
      (function : JsonObject → JsonObject → σ → Bytes × σ)
      (requiredParameters : List (Bytes × JsonType)) (rateLimit : Int) (requiresHuman : Bool) :
      Reachable
        (api.authenticatedRoute method path function requiredParameters rateLimit requiresHuman)
  | fileCacheMutex {api : HttpApi σ} (reachable : Reachable api) (held : Bool) :
      Reachable { api with fileCacheMutex := held }
  | onRead {api : HttpApi σ} (reachable : Reachable api) {services : Services} {system : System σ}
      {world : World σ} {fd : Int} {kind : RequestResult} {request : JsonObject} {fuel : Nat}
      {outcome : Outcome σ}
      (runs : onRead services system api world fd kind request fuel = some outcome) :
      Reachable outcome.api

/-- The handlers of API requests are registered under API keys only. -/
def ApiKeyed (api : HttpApi σ) : Prop :=
  ∀ key route, KeyedList.get? api.routemap key = some route →
    route.function ≠ none ∨ route.tokenFunction ≠ none → ∃ method path, key = apiKey method path

/-- What holds of every registered route under its key. -/
def Routes (property : Bytes → Route σ → Prop) (api : HttpApi σ) : Prop :=
  ∀ key route, KeyedList.get? api.routemap key = some route → property key route

section Routes

variable {property : Bytes → Route σ → Prop} {api : HttpApi σ}

theorem Routes.setRoute (routes : Routes property api) {key : Bytes} {route : Route σ}
    (holds : property key route) : Routes property (api.setRoute key route) := by
  intro wanted found registered
  rw [HttpApi.setRoute, KeyedList.get?_set] at registered
  split at registered
  · rename_i same
    cases registered
    rw [← same]
    exact holds
  · exact routes wanted found registered

theorem Routes.of_routemap {after : HttpApi σ} (routes : Routes property api)
    (same : after.routemap = api.routemap) : Routes property after := by
  unfold Routes
  rw [same]
  exact routes

/-- A request changes at most the record of a route's calls. -/
theorem Routes.dispatch (routes : Routes property api)
    (recorded : ∀ key route calls, property key route →
      property key { route with clientMsAtCall := calls })
    {services : Services} {state : σ} {kind : RequestResult} {request : JsonObject} {fuel : Nat}
    {dispatched : Dispatched σ}
    (runs : HttpApi.dispatch services api state kind request fuel = some dispatched) :
    Routes property dispatched.api := by
  have openedRoutes := routes.of_routemap (opened_routemap services api request)
  rcases (dispatchIn_cases runs).2 with same | ⟨key, route, routed, record⟩
  · exact openedRoutes.of_routemap same
  · have changed : Routes property (recordCall services (opened services api request) key route) := by
      unfold recordCall
      split
      · exact openedRoutes.setRoute (recorded key route _ (openedRoutes key route routed))
      · exact openedRoutes
    exact changed.of_routemap record

end Routes

theorem perform_recached {system : System σ} {api : HttpApi σ} {world : World σ} {fd : Int}
    {reply : Reply} {fuel : Nat} {answer : Answer σ}
    (runs : perform system api world fd reply fuel = some answer) :
    Recached api answer.api := by
  cases reply with
  | respond response =>
      cases runs
      exact ⟨rfl, rfl⟩
  | respondHttp view response => exact respondHttp_recached system runs
  | respond404 =>
      cases runs
      exact ⟨rfl, rfl⟩

/-- `on_read` is the dispatch, followed by the call of a responder. -/
theorem onRead_cases {services : Services} {system : System σ} {api : HttpApi σ} {world : World σ}
    {fd : Int} {kind : RequestResult} {request : JsonObject} {fuel : Nat} {outcome : Outcome σ}
    (runs : onRead services system api world fd kind request fuel = some outcome) :
    ∃ dispatched, dispatch services api world.state kind request fuel = some dispatched ∧
      outcome.calls = dispatched.calls ∧ Recached dispatched.api outcome.api ∧
      (outcome.result.isSome = true → ∃ reply, dispatched.ending = .reply reply) := by
  unfold onRead at runs
  obtain ⟨dispatched, dispatches, later⟩ := Option.bind_eq_some_iff.mp runs
  refine ⟨dispatched, dispatches, ?_⟩
  cases ending : dispatched.ending with
  | threw thrown =>
      simp only [ending] at later
      cases later
      exact ⟨rfl, ⟨rfl, rfl⟩, fun returns => by cases returns⟩
  | reply reply =>
      simp only [ending] at later
      obtain ⟨answer, performs, rfl⟩ := Option.map_eq_some_iff.mp later
      exact ⟨rfl, perform_recached performs, fun _ => ⟨reply, rfl⟩⟩

/-- What holds of the routes as they are registered, and does not depend on the
record of their calls, holds of them in every reachable state. -/
theorem Reachable.routes {property : Bytes → Route σ → Prop} {api : HttpApi σ}
    (reachable : Reachable api)
    (form : ∀ method path function requiredParameters rateLimit requiresHuman,
      property (method ++ ch ' ' :: path)
        ⟨none, some function, none, requiredParameters, requiresHuman, rateLimit, []⟩)
    (plain : ∀ method path function requiredParameters rateLimit requiresHuman,
      property (apiKey method path)
        ⟨some function, none, none, requiredParameters, requiresHuman, rateLimit, []⟩)
    (authenticated : ∀ method path function requiredParameters rateLimit requiresHuman,
      property (apiKey method path)
        ⟨none, none, some function, requiredParameters, requiresHuman, rateLimit, []⟩)
    (recorded : ∀ key route calls, property key route →
      property key { route with clientMsAtCall := calls }) : Routes property api := by
  induction reachable with
  | start publicDirectory fileCacheRemainingBytes =>
      intro key route registered
      cases registered
  | formRoute _ method path function requiredParameters rateLimit requiresHuman ih =>
      exact ih.setRoute (form method path function requiredParameters rateLimit requiresHuman)
  | route _ method path function requiredParameters rateLimit requiresHuman ih =>
      exact ih.setRoute (plain method path function requiredParameters rateLimit requiresHuman)
  | authenticatedRoute _ method path function requiredParameters rateLimit requiresHuman ih =>
      exact ih.setRoute
        (authenticated method path function requiredParameters rateLimit requiresHuman)
  | fileCacheMutex _ held ih => exact ih
  | onRead _ runs ih =>
      obtain ⟨dispatched, dispatches, -, same, -⟩ := onRead_cases runs
      exact (ih.dispatch recorded dispatches).of_routemap same.routemap

theorem Reachable.apiKeyed {api : HttpApi σ} (reachable : Reachable api) : ApiKeyed api := by
  have form : ∀ route : Route σ, route.function = none → route.tokenFunction = none →
      ¬ (route.function ≠ none ∨ route.tokenFunction ≠ none) := by
    rintro route noFunction noToken (function | token)
    · exact function noFunction
    · exact token noToken
  refine reachable.routes ?_ ?_ ?_ ?_
  · intro method path function requiredParameters rateLimit requiresHuman handles
    exact absurd handles (form _ rfl rfl)
  · intro method path function requiredParameters rateLimit requiresHuman _
    exact ⟨method, path, rfl⟩
  · intro method path function requiredParameters rateLimit requiresHuman _
    exact ⟨method, path, rfl⟩
  · intro key route calls keyed
    exact keyed

/-- No API key is the default key. -/
theorem apiKey_ne_default (method path : Bytes) :
    apiKey method path ≠ endWithSlash defaultRouteKey := by
  intro same
  have occurs : (bytes " /api").isPrefixOf ((endWithSlash defaultRouteKey).drop method.length) := by
    rw [← same, apiKey, List.append_assoc, List.drop_left]
    simp
  have lengths := congrArg List.length same
  have total : (endWithSlash defaultRouteKey).length = 14 := rfl
  rw [total, apiKey, List.length_append, List.length_append] at lengths
  have bound : method.length < 15 := by omega
  have never : ∀ start < 15,
      (bytes " /api").isPrefixOf ((endWithSlash defaultRouteKey).drop start) = false := by
    decide
  rw [never method.length bound] at occurs
  cases occurs

/-- The key of a call is made of the request's method and route, or it is the
default key of a form. -/
theorem Gated.names {services : Services} {api : HttpApi σ} {kind : RequestResult}
    {request : JsonObject} {call : Call} (gated : Gated services api kind request call)
    (keyed : ApiKeyed api) :
    Names kind request call.routeKey ∨
      (call.handler = .formFunction ∧ call.routeKey = defaultRouteKey) := by
  have key := gated.key_eq
  have kinds := gated.kind_eq
  by_cases named : request.hasObj (bytes "method") .string ∧ request.hasObj (bytes "route") .string
  · left
    refine ⟨named.1, named.2, ?_⟩
    rw [key, routeKey, namedRouteKey, if_pos named]
    by_cases form : call.handler = .formFunction
    · rw [if_pos form] at kinds
      simp [kinds]
    · rw [if_neg form] at kinds
      simp [kinds]
  · right
    rw [routeKey, namedRouteKey, if_neg named] at key
    by_cases form : call.handler = .formFunction
    · rw [if_pos form] at kinds
      refine ⟨form, ?_⟩
      simpa [kinds] using key
    · rw [if_neg form] at kinds
      obtain ⟨route, registered, has, -⟩ := gated.admitted
      have handles : route.function ≠ none ∨ route.tokenFunction ≠ none := by
        cases handler : call.handler with
        | function =>
            rw [handler] at has
            exact .inl has
        | tokenFunction =>
            rw [handler] at has
            exact .inr has
        | formFunction => exact absurd handler form
      obtain ⟨method, path, apiEq⟩ := keyed call.routeKey route registered handles
      simp only [kinds, true_or, if_true] at key
      exact absurd (apiEq.symm.trans key) (apiKey_ne_default method path)

/-- Every handler is called behind its gates, in every reachable state. -/
theorem onRead_calls {services : Services} {system : System σ} {api : HttpApi σ} {world : World σ}
    {fd : Int} {kind : RequestResult} {request : JsonObject} {fuel : Nat} {outcome : Outcome σ}
    (reachable : Reachable api)
    (runs : onRead services system api world fd kind request fuel = some outcome) :
    ∀ call ∈ outcome.calls,
      Gated services (opened services api request) kind (withSession services api request) call ∧
        (Names kind (withSession services api request) call.routeKey ∨
          (call.handler = .formFunction ∧ call.routeKey = defaultRouteKey)) := by
  intro call member
  obtain ⟨dispatched, dispatches, calls, -⟩ := onRead_cases runs
  rw [calls] at member
  have gated := (dispatchIn_cases dispatches).1 call member
  have keyed := Routes.of_routemap reachable.apiKeyed (opened_routemap services api request)
  exact ⟨gated, gated.names keyed⟩

namespace Sample

/-- No file exists, and every response is sent. -/
def system : System Unit where
  lstat _ state := (none, state)
  openFile _ state := (-1, state)
  read _ _ state := (none, state)
  close _ state := (true, state)
  send _ _ state := (false, state)
  heap _ := 0

def itemOne : Memory :=
  Memory.ofString (fun _ => 0) (bytes
    "GET /api/item HTTP/1.1\r\nContent-Type: application/json\r\n\r\n\x7b\"id\":\"1\"\x7d")

/-- A form behind the page that a request without a route is given. -/
def notFoundForm : HttpApi Unit :=
  unrouted.formRoute (bytes "GET") (bytes "/404.html")
    (fun _ state => (⟨bytes "/404.html", [], [], 0⟩, state)) [] 0 false

def arrayMethod : Memory :=
  Memory.ofString (fun _ => 0) (bytes
    "POST /x HTTP/1.1\r\nContent-Type: application/x-www-form-urlencoded\r\n\r\nmethod=[")

end Sample

/-- The handler of the item route is called for a request with the required key. -/
theorem onRead_calls_itemOne :
    ∃ request, ∃ outcome : Outcome Unit,
      Converges (parseHttpRequest Sample.itemOne (fun _ _ => 0) 1 (.new .object))
        (.httpApi, request) ∧
      onRead Sample.services Sample.system Sample.items ⟨(), []⟩ 5 .httpApi request 1 =
        some outcome ∧
      outcome.calls ≠ [] ∧
      ∀ call ∈ outcome.calls,
        Gated Sample.services (opened Sample.services Sample.items request) .httpApi
            (withSession Sample.services Sample.items request) call ∧
          (Names .httpApi (withSession Sample.services Sample.items request) call.routeKey ∨
            (call.handler = .formFunction ∧ call.routeKey = defaultRouteKey)) := by
  have facts : (parseHttpRequest Sample.itemOne (fun _ _ => 0) 1 (.new .object) 80).any
      (fun parsed => decide (parsed.1 = .httpApi) &&
        (onRead Sample.services Sample.system Sample.items ⟨(), []⟩ 5 .httpApi parsed.2 1).any
          fun outcome => !outcome.calls.isEmpty) = true := by
    decide +kernel
  obtain ⟨⟨kind, request⟩, parses, holds⟩ := (Option.any_eq_true _ _).mp facts
  rw [Bool.and_eq_true, decide_eq_true_eq] at holds
  obtain ⟨rfl, called⟩ := holds
  obtain ⟨outcome, runs, calls⟩ := (Option.any_eq_true _ _).mp called
  have reachable : Reachable Sample.items := .route (.start _ _) _ _ _ _ _ _
  refine ⟨request, outcome, ⟨80, parses⟩, runs, ?_, onRead_calls reachable runs⟩
  simpa using calls

/-- A form whose method is an array reaches the form handler of the default
route, which it does not name. -/
theorem exists_call_not_named :
    ∃ request outcome,
      Converges (parseHttpRequest Sample.arrayMethod (fun _ _ => 0) 1 (.new .object))
        (.httpForm, request) ∧
      Reachable Sample.notFoundForm ∧
      onRead Sample.services Sample.system Sample.notFoundForm ⟨(), []⟩ 5 .httpForm request 1 =
        some outcome ∧
      ∃ call ∈ outcome.calls,
        ¬ Names .httpForm (withSession Sample.services Sample.notFoundForm request)
          call.routeKey := by
  have facts : (parseHttpRequest Sample.arrayMethod (fun _ _ => 0) 1 (.new .object) 90).any
      (fun parsed => decide (parsed.1 = .httpForm) &&
        ((onRead Sample.services Sample.system Sample.notFoundForm ⟨(), []⟩ 5 .httpForm parsed.2
          1).any fun outcome => !outcome.calls.isEmpty) &&
        !(withSession Sample.services Sample.notFoundForm parsed.2).hasObj (bytes "method")
          .string) = true := by
    decide +kernel
  obtain ⟨⟨kind, request⟩, parses, holds⟩ := (Option.any_eq_true _ _).mp facts
  rw [Bool.and_eq_true, Bool.and_eq_true, decide_eq_true_eq] at holds
  obtain ⟨⟨rfl, called⟩, untyped⟩ := holds
  obtain ⟨outcome, runs, calls⟩ := (Option.any_eq_true _ _).mp called
  refine ⟨request, outcome, ⟨90, parses⟩, .formRoute (.start _ _) _ _ _ _ _ _, runs, ?_⟩
  cases equal : outcome.calls with
  | nil => simp [equal] at calls
  | cons call rest =>
      refine ⟨call, List.mem_cons_self, ?_⟩
      rintro ⟨typed, -⟩
      simp [typed] at untyped

end HttpApi

end Libjaypea
