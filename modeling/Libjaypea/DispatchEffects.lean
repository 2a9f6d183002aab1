import Libjaypea.DispatchCalls

/-!
# The effects of a request

What each way through the gates of a route leaves of the API, and from it what
one request does to the sessions and to the records of calls.
-/

namespace Libjaypea

namespace HttpApi

variable {σ : Type}

def rateLimitedMessage : Bytes :=
  bytes "This route is rate-limited, wait a bit."

/-- The ending is not the answer of the rate limit. -/
def Spared (kind : RequestResult) (ending : Ending) : Prop :=
  ∀ view response, ending ≠ .reply (refuse kind view response rateLimitedMessage)

theorem errorBody_injective : Function.Injective errorBody := by
  intro first second same
  unfold errorBody at same
  exact List.append_cancel_left (List.append_cancel_right same)

theorem spared_refuse (kind : RequestResult) (view : View) (response : HttpResponse)
    {message : Bytes} (other : message ≠ rateLimitedMessage) :
    Spared kind (.reply (refuse kind view response message)) := by
  intro limitedView limitedResponse same
  rw [Ending.reply.injEq] at same
  unfold refuse at same
  split_ifs at same with form
  · injection same with views
    have statuses := congrArg (fun view => KeyedList.get? (View.parameters view) (bytes "status")) views
    simp only [KeyedList.get?_set_self, Option.some.injEq] at statuses
    exact other statuses
  · injection same with responses
    have bodies := congrArg HttpResponse.body responses
    exact other (errorBody_injective bodies)

/-- A handler that is not called leaves other answers than the rate limit. -/
theorem invoke_spared {services : Services} {api : HttpApi σ} {state : σ} {id key : Bytes}
    {request : JsonObject} {response : HttpResponse} {kind : RequestResult} {view : View}
    {route : Route σ} {fuel : Nat} {dispatched : Dispatched σ}
    (runs : invoke services api state id key request response kind view route fuel =
      some dispatched) (uncalled : dispatched.calls = []) : Spared kind dispatched.ending := by
  intro limitedView limitedResponse same
  cases kind with
  | http =>
      cases runs
      cases same
  | api =>
      cases runs
      cases same
  | httpForm =>
      simp only [invoke, invokeForm, Option.some.injEq] at runs
      split at runs
      · cases runs
        cases same
      · cases runs
        cases uncalled
  | httpApi =>
      simp only [invoke, invokeApi] at runs
      split at runs
      · cases runs
        cases uncalled
      · simp only [invokeToken] at runs
        split at runs
        · cases runs
          exact spared_refuse .httpApi limitedView response (by decide) limitedView limitedResponse
            same
        · split at runs
          · cases runs
            injection same with replies
            injection replies with responses
            have bodies : insufficientAccess = errorBody rateLimitedMessage :=
              congrArg HttpResponse.body responses
            exact absurd bodies (by decide)
          · obtain ⟨parsed, -, rfl⟩ := Option.map_eq_some_iff.mp runs
            cases uncalled
      · cases runs
        cases same

section Passage

variable (services : Services) (api : HttpApi σ) (id : Bytes) (kind : RequestResult)
  (request : JsonObject) (response : HttpResponse) (key : Bytes) (route : Route σ)

/-- The captcha of the request is a text. -/
def BringsCaptcha (request : JsonObject) : Prop :=
  request.hasObj (bytes "captcha") .string = true

/-- The ways through the gates, with the API and the answer that each leaves. -/
inductive Passage : HttpApi σ → Except Ending View → Prop
  | threw {required : Bytes × JsonType} (member : required ∈ route.requiredParameters)
      (lacks : Lacks request required) : Passage api (.error (.threw .exceptionPointer))
  | limited {view : View}
      (complete : ∀ required ∈ route.requiredParameters, ¬ Lacks request required)
      (limited : rateLimited services route = true) :
      Passage api (.error (.reply (refuse kind view response rateLimitedMessage)))
  | refused {ending : Ending} (due : rateLimited services route = false)
      (spared : Spared kind ending) :
      Passage (recordCall services api key route) (.error ending)
  | wrong {ending : Ending} (due : rateLimited services route = false)
      (spared : Spared kind ending) (human : route.requiresHuman = true)
      (brings : BringsCaptcha request)
      (differs : request.str (bytes "captcha") ≠ (api.session id).captcha) :
      Passage ((recordCall services api key route).setCaptcha id []) (.error ending)
  | right {view : View} (due : rateLimited services route = false)
      (human : route.requiresHuman = true) (brings : BringsCaptcha request)
      (same : request.str (bytes "captcha") = (api.session id).captcha) :
      Passage ((recordCall services api key route).setCaptcha id []) (.ok view)
  | automatic {view : View} (due : rateLimited services route = false)
      (automatic : route.requiresHuman = false) :
      Passage (recordCall services api key route) (.ok view)

theorem requiresMessage_ne (required : Bytes × JsonType) :
    requiresMessage required ≠ rateLimitedMessage := by
  intro same
  have quoted : bytes "'" = [39] := rfl
  have started : rateLimitedMessage.head? = some 84 := rfl
  rw [← same, requiresMessage, quoted] at started
  cases started

theorem gates_passage (view : View) :
    Passage services api id kind request response key route
      (gates services api id kind request view response key route).1
      (gates services api id kind request view response key route).2 := by
  unfold gates
  cases decodes : decodeParameters services request route.requiredParameters view.parameters with
  | none =>
      obtain ⟨required, member, lacks⟩ := (decodeParameters_eq_none services request _ _).mp decodes
      exact .threw member lacks
  | some parameters =>
      dsimp only
      by_cases limited : rateLimited services route = true
      · rw [if_pos limited]
        refine .limited (fun required member lacks => ?_) limited
        have fails := (decodeParameters_eq_none services request route.requiredParameters
          view.parameters).mpr ⟨required, member, lacks⟩
        cases decodes.symm.trans fails
      · rw [if_neg limited]
        have due : rateLimited services route = false := by simpa using limited
        cases checked : route.requiredParameters.find? (!accepts request ·) with
        | some required => exact .refused due (spared_refuse kind _ response (requiresMessage_ne required))
        | none =>
            have kept := session_recordCall services api id key route
            unfold checkHuman
            dsimp only
            split_ifs with human missing wrong
            · exact .refused due (spared_refuse kind _ response (by decide))
            · rw [kept] at wrong
              exact .wrong due (spared_refuse kind _ response (by decide)) human (by simpa [BringsCaptcha] using missing) wrong
            · rw [kept] at wrong
              exact .right due human (by simpa [BringsCaptcha] using missing) (not_not.mp wrong)
            · exact .automatic due (by simpa using human)

end Passage

section Effect

variable (services : Services) (api : HttpApi σ) (kind : RequestResult) (request : JsonObject)

/-- The request is for the captcha route. -/
def AsksCaptcha (kind : RequestResult) (request : JsonObject) : Prop :=
  kind ≠ .http ∧ routeKey kind request = captchaRouteKey

/-- The request goes through the gates of the route. -/
structure Enters (api : HttpApi σ) (kind : RequestResult) (request : JsonObject)
    (route : Route σ) : Prop where
  gated : kind ≠ .http
  key : routeKey kind request ≠ captchaRouteKey
  routed : KeyedList.get? api.routemap (routeKey kind request) = some route

/-- What one request does once its session is open. -/
inductive Effect : Dispatched σ → Prop
  | direct {state : σ} {ending : Ending} (away : ∀ route, ¬ Enters api kind request route)
      (silent : ¬ AsksCaptcha kind request) (spared : Spared kind ending) : Effect ⟨api, state, [], ending⟩
  | captcha {state : σ} {ending : Ending} (asks : AsksCaptcha kind request) :
      Effect ⟨api.setCaptcha (request.str sessionKey)
        (shownCaptcha services (sessionOf api request) request), state, [], ending⟩
  | stopped {route : Route σ} {after : HttpApi σ} {state : σ} {ending : Ending}
      (enters : Enters api kind request route)
      (passage : Passage services api (request.str sessionKey) kind request
        (sessionResponse request) (routeKey kind request) route after (.error ending)) :
      Effect ⟨after, state, [], ending⟩
  | passed {route : Route σ} {view : View} {dispatched : Dispatched σ}
      (enters : Enters api kind request route)
      (passage : Passage services api (request.str sessionKey) kind request
        (sessionResponse request) (routeKey kind request) route dispatched.api (.ok view))
      (invoked : Invoked services dispatched.api (request.str sessionKey) (routeKey kind request)
        request route kind dispatched.calls)
      (spared : dispatched.calls = [] → Spared kind dispatched.ending) : Effect dispatched

theorem enters_opened {services : Services} {api : HttpApi σ} {kind : RequestResult}
    {request entering : JsonObject} {route : Route σ} :
    Enters (opened services api request) kind entering route ↔ Enters api kind entering route := by
  constructor
  · rintro ⟨gated, key, routed⟩
    rw [opened_routemap] at routed
    exact ⟨gated, key, routed⟩
  · rintro ⟨gated, key, routed⟩
    rw [← opened_routemap services api request] at routed
    exact ⟨gated, key, routed⟩

theorem Enters.unique {api : HttpApi σ} {kind : RequestResult} {request : JsonObject}
    {first second : Route σ} (enters : Enters api kind request first)
    (again : Enters api kind request second) : first = second :=
  Option.some.inj (enters.routed.symm.trans again.routed)

variable {services api kind request}

theorem dispatchIn_effect {state : σ} {fuel : Nat} {dispatched : Dispatched σ}
    (runs : dispatchIn services api state kind request fuel = some dispatched) :
    Effect services api kind request dispatched := by
  by_cases gated : kind = .http
  · subst gated
    rw [dispatchIn_http] at runs
    cases runs
    refine .direct (fun route enters => enters.gated rfl) (fun asks => asks.1 rfl) ?_
    intro view response same
    cases same
  by_cases key : routeKey kind request = captchaRouteKey
  · rw [dispatchIn_captcha services api state fuel gated key] at runs
    cases runs
    exact .captcha ⟨gated, key⟩
  cases routed : KeyedList.get? api.routemap (routeKey kind request) with
  | none =>
      rw [dispatchIn_unrouted services api state fuel gated key routed] at runs
      cases runs
      refine .direct (fun route enters => ?_) (fun asks => key asks.2)
        (spared_refuse kind _ _ (by decide))
      cases routed.symm.trans enters.routed
  | some route =>
      have enters : Enters api kind request route := ⟨gated, key, routed⟩
      have passage := gates_passage services api (request.str sessionKey) kind request
        (sessionResponse request) (routeKey kind request) route (requestedView request)
      cases passes : gates services api (request.str sessionKey) kind request
          (requestedView request) (sessionResponse request) (routeKey kind request) route with
      | mk after result =>
          rw [passes] at passage
          cases result with
          | error ending =>
              rw [dispatchIn_refused services api state fuel gated key routed passes] at runs
              cases runs
              exact .stopped enters passage
          | ok view =>
              rw [dispatchIn_passed services api state fuel gated key routed passes] at runs
              have spared := invoke_spared runs
              obtain ⟨same, invoked⟩ := invoke_cases runs
              rw [← same] at passage invoked
              exact .passed enters passage invoked spared

end Effect

end HttpApi

end Libjaypea
