import Libjaypea.DispatchEffects
import Libjaypea.Transitions

/-!
# Runs of requests

A server whose routes are registered serves its requests one after another,
until one of them throws.  Every request is logged with the API that it found
and the outcome that it had, so that what holds of a whole run is said of its
log.
-/

namespace Libjaypea

open Transitions

namespace HttpApi

variable {σ : Type}

/-- The API when `start` is called: its routes are registered and no request
has been served. -/
inductive Registered : HttpApi σ → Prop
  | new (publicDirectory : Bytes) (fileCacheRemainingBytes : Int) :
      Registered ⟨publicDirectory, [], fileCacheRemainingBytes, false, [], []⟩
  | formRoute {api : HttpApi σ} (registered : Registered api) (method path : Bytes)
      (function : JsonObject → σ → View × σ) (requiredParameters : List (Bytes × JsonType))
      (rateLimit : Int) (requiresHuman : Bool) :
      Registered (api.formRoute method path function requiredParameters rateLimit requiresHuman)
  | route {api : HttpApi σ} (registered : Registered api) (method path : Bytes)
      (function : JsonObject → σ → Bytes × σ) (requiredParameters : List (Bytes × JsonType))
      (rateLimit : Int) (requiresHuman : Bool) :
      Registered (api.route method path function requiredParameters rateLimit requiresHuman)
  | authenticatedRoute {api : HttpApi σ} (registered : Registered api) (method path : Bytes)
      (function : JsonObject → JsonObject → σ → Bytes × σ)
      (requiredParameters : List (Bytes × JsonType)) (rateLimit : Int) (requiresHuman : Bool) :
      Registered
        (api.authenticatedRoute method path function requiredParameters rateLimit requiresHuman)

theorem Registered.sessions {api : HttpApi σ} (registered : Registered api) : api.sessions = [] := by
  induction registered with
  | new publicDirectory fileCacheRemainingBytes => rfl
  | formRoute _ _ _ _ _ _ _ ih => exact ih
  | route _ _ _ _ _ _ _ ih => exact ih
  | authenticatedRoute _ _ _ _ _ _ _ ih => exact ih

/-- No call is recorded yet. -/
theorem Registered.uncalled {api : HttpApi σ} (registered : Registered api) :
    Routes (fun _ route => route.clientMsAtCall = []) api := by
  induction registered with
  | new publicDirectory fileCacheRemainingBytes =>
      intro key route routed
      cases routed
  | formRoute _ _ _ _ _ _ _ ih => exact ih.setRoute rfl
  | route _ _ _ _ _ _ _ ih => exact ih.setRoute rfl
  | authenticatedRoute _ _ _ _ _ _ _ ih => exact ih.setRoute rfl

/-- The session of a request is its only member that `on_read` changes. -/
theorem get?_withSession (services : Services) (api : HttpApi σ) (request : JsonObject)
    {key : Bytes} (other : sessionKey ≠ key) :
    KeyedList.get? (withSession services api request).objectValues key =
      KeyedList.get? request.objectValues key := by
  unfold withSession
  dsimp only
  split_ifs <;> simp [JsonObject.setMember, JsonObject.eraseMember, KeyedList.get?_set,
    KeyedList.get?_erase, other]

theorem get?_withSession_sessionKey (services : Services) (api : HttpApi σ) (request : JsonObject) :
    KeyedList.get? (withSession services api request).objectValues sessionKey ≠ none := by
  have present : ∀ request : JsonObject, request.hasObj sessionKey .string = true →
      KeyedList.get? request.objectValues sessionKey ≠ none := by
    intro request typed absent
    simp [JsonObject.hasObj, absent] at typed
  unfold withSession
  dsimp only
  split_ifs with expired named named
  · exact present _ named
  · simp [JsonObject.setMember, KeyedList.get?_set_self]
  · exact present _ named
  · simp [JsonObject.setMember, KeyedList.get?_set_self]

theorem routeKey_withSession (services : Services) (api : HttpApi σ) (kind : RequestResult)
    (request : JsonObject) :
    routeKey kind (withSession services api request) = routeKey kind request := by
  have method := get?_withSession services api request
    (show sessionKey ≠ bytes "method" by decide)
  have route := get?_withSession services api request (show sessionKey ≠ bytes "route" by decide)
  simp only [routeKey, namedRouteKey, JsonObject.hasObj_congr method,
    JsonObject.hasObj_congr route, JsonObject.str_congr method, JsonObject.str_congr route]

/-- A request with all that `on_read` is given for it. -/
structure Arrival (σ : Type) where
  services : Services
  system : System σ
  world : World σ
  fd : Int
  kind : RequestResult
  request : JsonObject
  fuel : Nat

/-- A request that has been served, with the API that it found. -/
structure Served (σ : Type) where
  arrival : Arrival σ
  before : HttpApi σ
  outcome : Outcome σ

namespace Served

variable (served : Served σ)

/-- The request under its session. -/
def request : JsonObject :=
  withSession served.arrival.services served.before served.arrival.request

def id : Bytes :=
  served.request.str sessionKey

/-- The session object that the request is served with. -/
def session : Session :=
  (opened served.arrival.services served.before served.arrival.request).session served.id

end Served

structure RequestServer (σ : Type) where
  api : HttpApi σ
  log : List (Served σ)
  /-- No request has thrown. -/
  running : Bool

def answerRequest (server : RequestServer σ) (arrival : Arrival σ) : Option (RequestServer σ) :=
  if server.running then
    (onRead arrival.services arrival.system server.api arrival.world arrival.fd arrival.kind
      arrival.request arrival.fuel).map fun outcome =>
        ⟨outcome.api, server.log ++ [⟨arrival, server.api, outcome⟩], outcome.result.isSome⟩
  else none

/-- The server when `start` is called. -/
def RequestServer.start (api : HttpApi σ) : RequestServer σ :=
  ⟨api, [], true⟩

/-- How one request is served, between the server before it and after it. -/
structure Serves (server : RequestServer σ) (served : Served σ) (dispatched : Dispatched σ)
    (next : RequestServer σ) : Prop where
  running : server.running = true
  before : served.before = server.api
  log : next.log = server.log ++ [served]
  dispatches : dispatch served.arrival.services served.before served.arrival.world.state
    served.arrival.kind served.arrival.request served.arrival.fuel = some dispatched
  effect : Effect served.arrival.services
    (opened served.arrival.services served.before served.arrival.request) served.arrival.kind
    served.request dispatched
  calls : served.outcome.calls = dispatched.calls
  recached : Recached dispatched.api next.api
  replies : next.running = true → ∃ reply, dispatched.ending = .reply reply

theorem answerRequest_cases {server next : RequestServer σ} {arrival : Arrival σ}
    (answers : answerRequest server arrival = some next) :
    ∃ served dispatched, served.arrival = arrival ∧ Serves server served dispatched next := by
  unfold answerRequest at answers
  split at answers
  · rename_i running
    obtain ⟨outcome, runs, rfl⟩ := Option.map_eq_some_iff.mp answers
    obtain ⟨dispatched, dispatches, calls, recached, replies⟩ := onRead_cases runs
    exact ⟨⟨arrival, server.api, outcome⟩, dispatched, rfl, running, rfl, rfl, dispatches,
      dispatchIn_effect dispatches, calls, recached, replies⟩
  · cases answers

/-- One request is logged at a time. -/
theorem answerRequest_logs (server : RequestServer σ) (arrival : Arrival σ)
    (next : RequestServer σ) (answers : answerRequest server arrival = some next) :
    ∃ served, next.log = server.log ++ [served] ∧ served.arrival = arrival := by
  obtain ⟨served, dispatched, same, step⟩ := answerRequest_cases answers
  exact ⟨served, step.log, same⟩

/-- Every logged request was served in a state that a run has reached. -/
theorem served_of_run {allowed : RequestServer σ → Arrival σ → Prop} {api : HttpApi σ}
    {last : RequestServer σ} {arrivals : List (Arrival σ)}
    (run : Run answerRequest allowed (.start api) arrivals last) {earlier later : List (Served σ)}
    {served : Served σ} (logged : last.log = earlier ++ served :: later) :
    ∃ server dispatched next taken, Run answerRequest allowed (.start api) taken server ∧
      allowed server served.arrival ∧ server.log = earlier ∧
        Serves server served dispatched next := by
  have logs : ∀ (first : RequestServer σ) arrival next, answerRequest first arrival = some next →
      ∃ served, next.log = first.log ++ [served] := by
    intro first arrival next answers
    obtain ⟨served, appended, -⟩ := answerRequest_logs first arrival next answers
    exact ⟨served, appended⟩
  obtain ⟨server, arrival, next, taken, reached, allows, answers, before, after⟩ :=
    run.step_of_logged logs rfl logged
  obtain ⟨other, dispatched, rfl, step⟩ := answerRequest_cases answers
  have same := step.log
  rw [after, before, List.append_cancel_left_eq, List.singleton_inj] at same
  subst same
  exact ⟨server, dispatched, next, taken, reached, allows, before, step⟩

namespace Sample

/-- A request at this second of the clock. -/
def arrivalAt (seconds : Int) (kind : RequestResult) (request : JsonObject) : Arrival Unit where
  services :=
    { services with
      sessionSeconds := seconds
      createdSeconds := seconds
      callMilliseconds := 1000 * seconds }
  system := system
  world := ⟨(), []⟩
  fd := 5
  kind := kind
  request := request
  fuel := 10

end Sample

end HttpApi

end Libjaypea
