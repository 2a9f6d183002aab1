import Libjaypea.DispatchGates
import Libjaypea.JsonParseRun

/-!
# Where the dispatch throws

A missing key of a required parameter throws while the parameters are decoded,
before the test that would answer it.  The captcha route throws on a captcha
URL without a slash or with the wrong scheme, and a token whose text the JSON
parser does not leave is never answered.
-/

namespace Libjaypea

open Fuelled

namespace TlsClientManager

end TlsClientManager

namespace HttpApi

variable {σ : Type}

/-- The `requires a` error for one of the route's parameters. -/
def AnsweredRequires (kind : RequestResult) (route : Route σ) (reply : Reply) : Prop :=
  ∃ required ∈ route.requiredParameters,
    if kind = .httpForm then
      ∃ view response, reply = .respondHttp view response ∧
        KeyedList.get? view.parameters (bytes "status") = some (requiresMessage required)
    else
      ∃ response, reply = .respond response ∧ response.body = errorBody (requiresMessage required)

/-- The dispatch ends with a response, and with the `requires a` error when a
key of a required parameter is missing. -/
def Answers (services : Services) (api : HttpApi σ) (state : σ) (kind : RequestResult)
    (request : JsonObject) : Prop :=
  let served := withSession services api request
  ∃ dispatched reply, Converges (dispatch services api state kind request) dispatched ∧
    dispatched.ending = .reply reply ∧
      (kind ≠ .http → routeKey kind served ≠ captchaRouteKey →
        ∀ route, KeyedList.get? api.routemap (routeKey kind served) = some route →
          (∃ required ∈ route.requiredParameters, Lacks served required) →
            AnsweredRequires kind route reply)

section Invoke

variable (services : Services) (api : HttpApi σ) (state : σ) (id key : Bytes)
  (request : JsonObject) (response : HttpResponse) (view : View) (route : Route σ)

end Invoke

section Main

variable (services : Services) (api : HttpApi σ) (state : σ) (kind : RequestResult)
  (request : JsonObject)

theorem invoke_stable (id key : Bytes) (response : HttpResponse) (view : View) (route : Route σ) :
    Stable (invoke services api state id key request response kind view route) := by
  cases kind with
  | http => exact stable_const _
  | api => exact stable_const _
  | httpForm => exact stable_const _
  | httpApi =>
      intro fuel answer equal
      simp only [invoke, invokeApi, invokeToken] at equal ⊢
      split at equal
      · exact equal
      · split_ifs at equal ⊢
        · exact equal
        · split at equal
          · exact equal
          · exact (JsonObject.parseLoop_stable _ _).map _ fuel answer equal
      · exact equal

theorem dispatchIn_stable : Stable (dispatchIn services api state kind request) := by
  intro fuel answer equal
  simp only [dispatchIn] at equal ⊢
  split_ifs at equal ⊢
  · exact equal
  · exact equal
  · split at equal
    · exact equal
    · split at equal
      · exact equal
      · exact invoke_stable services _ state kind request _ _ _ _ _ fuel answer equal

/-- `on_read` throws exactly when the dispatch does: no responder throws. -/
theorem onRead_throws_iff (system : System σ) (world : World σ) (fd : Int) :
    (∃ outcome, Converges (onRead services system api world fd kind request) outcome ∧
        outcome.result = none) ↔
      ∃ dispatched thrown, Converges (dispatch services api world.state kind request) dispatched ∧
        dispatched.ending = .threw thrown := by
  constructor
  · rintro ⟨outcome, ⟨fuel, runs⟩, threw⟩
    obtain ⟨dispatched, dispatches, later⟩ := Option.bind_eq_some_iff.mp runs
    refine ⟨dispatched, ?_⟩
    cases ending : dispatched.ending with
    | threw thrown => exact ⟨thrown, ⟨fuel, dispatches⟩, rfl⟩
    | reply reply =>
        simp only [ending] at later
        obtain ⟨answer, -, rfl⟩ := Option.map_eq_some_iff.mp later
        cases threw
  · rintro ⟨dispatched, thrown, ⟨fuel, dispatches⟩, ending⟩
    let outcome : Outcome σ :=
      ⟨none, dispatched.api, { world with state := dispatched.state }, dispatched.calls⟩
    refine ⟨outcome, ⟨fuel, Option.bind_eq_some_iff.mpr ⟨dispatched, dispatches, ?_⟩⟩, rfl⟩
    simp only [ending, outcome]

/-- An answered request is not answered by an exception. -/
theorem onRead_result_ne_none {system : System σ} {world : World σ} {fd : Int}
    (answers : Answers services api world.state kind request) {outcome : Outcome σ}
    (runs : Converges (onRead services system api world fd kind request) outcome) :
    outcome.result ≠ none := by
  intro threw
  obtain ⟨answered, reply, converges, ends, -⟩ := answers
  obtain ⟨dispatched, thrown, dispatches, ending⟩ :=
    (onRead_throws_iff services api kind request system world fd).mp ⟨outcome, runs, threw⟩
  have same : answered = dispatched :=
    (dispatchIn_stable services _ world.state kind _).unique converges dispatches
  rw [same, ending] at ends
  cases ends

end Main

namespace Sample

def itemText : Memory :=
  Memory.ofString (fun _ => 0)
    (bytes "GET /api/item HTTP/1.1\r\nContent-Type: application/json\r\n\r\n\x7b\x7d")

end Sample

end HttpApi

end Libjaypea
