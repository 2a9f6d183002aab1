import Libjaypea.HttpDispatch

/-!
# The gates of the dispatch

Which requests pass the gates, that every handler is called behind them in
every reachable state, and on which requests the dispatch reaches its answer
instead of throwing.
-/

namespace Libjaypea

open Fuelled

namespace HttpApi

variable {σ : Type}

section Gates

variable (services : Services) (api : HttpApi σ) (id : Bytes) (kind : RequestResult)
  (request : JsonObject) (view : View) (response : HttpResponse) (key : Bytes) (route : Route σ)

def Lacks (request : JsonObject) (required : Bytes × JsonType) : Prop :=
  KeyedList.get? request.objectValues required.1 = none

/-- The gates behind the parameter decoding, all passed. -/
structure Admitted (services : Services) (session : Session) (request : JsonObject)
    (route : Route σ) : Prop where
  rate : rateLimited services route = false
  typed : ∀ required ∈ route.requiredParameters, request.hasObj required.1 required.2 = true
  nonempty : ∀ required ∈ route.requiredParameters,
    request.hasObj required.1 .string = true → request.str required.1 ≠ []
  human : route.requiresHuman = true →
    request.hasObj (bytes "captcha") .string = true ∧
      request.str (bytes "captcha") = session.captcha

theorem accepts_iff (required : Bytes × JsonType) :
    accepts request required = true ↔
      request.hasObj required.1 required.2 = true ∧
        (request.hasObj required.1 .string = true → request.str required.1 ≠ []) := by
  simp [accepts, imp_iff_not_or]

theorem decodeParameters_eq_none (required : List (Bytes × JsonType))
    (parameters : List (Bytes × Bytes)) :
    decodeParameters services request required parameters = none ↔
      ∃ one ∈ required, Lacks request one := by
  induction required generalizing parameters with
  | nil => simp [decodeParameters]
  | cons one rest ih =>
      unfold decodeParameters Lacks JsonObject.getURLDecodedStr JsonObject.getStr
      cases member : KeyedList.get? request.objectValues one.1 with
      | none => simp [member]
      | some value =>
          simp only [Option.map_some, Option.bind_some, ih, List.mem_cons, exists_eq_or_imp, member,
            reduceCtorEq, false_or]
          rfl

theorem gates_of_lacks {required : Bytes × JsonType} (member : required ∈ route.requiredParameters)
    (lacks : Lacks request required) :
    gates services api id kind request view response key route =
      (api, .error (.threw .exceptionPointer)) := by
  have fails := (decodeParameters_eq_none services request route.requiredParameters
    view.parameters).mpr ⟨required, member, lacks⟩
  simp only [gates, fails]

theorem session_recordCall :
    (recordCall services api key route).session id = api.session id := by
  unfold recordCall
  split <;> rfl

theorem captcha_setCaptcha (captcha : Bytes) :
    ((api.setCaptcha id captcha).session id).captcha = captcha := by
  simp [setCaptcha, session, KeyedList.get?_set_self]

/-- A refused request is answered, an admitted one finds the captcha cleared. -/
theorem checkHuman_cases :
    (∃ after reply, checkHuman api id kind request view response route =
        (after, .error (.reply reply)) ∧ route.requiresHuman = true ∧
          (request.hasObj (bytes "captcha") .string = true →
            request.str (bytes "captcha") ≠ (api.session id).captcha)) ∨
      (∃ after, checkHuman api id kind request view response route = (after, .ok view) ∧
        (route.requiresHuman = true →
          request.hasObj (bytes "captcha") .string = true ∧
            request.str (bytes "captcha") = (api.session id).captcha ∧
              (after.session id).captcha = [])) := by
  unfold checkHuman
  split
  · rename_i human
    split
    · rename_i missing
      left
      exact ⟨_, _, rfl, human, fun present => by simp [present] at missing⟩
    · rename_i present
      split
      · rename_i wrong
        left
        exact ⟨_, _, rfl, human, fun _ => wrong⟩
      · rename_i right
        right
        refine ⟨_, rfl, fun _ => ⟨?_, ?_, captcha_setCaptcha api id []⟩⟩
        · simpa using present
        · simpa using right
  · rename_i automatic
    right
    exact ⟨_, rfl, fun human => absurd human automatic⟩

/-- What the gates do with a request that has every required key. -/
theorem gates_cases (complete : ∀ required ∈ route.requiredParameters, ¬ Lacks request required) :
    (∃ after reply, gates services api id kind request view response key route =
        (after, .error (.reply reply)) ∧ ¬ Admitted services (api.session id) request route) ∨
      (∃ after passed, gates services api id kind request view response key route =
        (after, .ok passed) ∧ Admitted services (api.session id) request route ∧
          (route.requiresHuman = true → (after.session id).captcha = [])) := by
  have decodes : decodeParameters services request route.requiredParameters view.parameters ≠ none := by
    rw [Ne, decodeParameters_eq_none]
    rintro ⟨required, member, lacks⟩
    exact complete required member lacks
  obtain ⟨parameters, decoded⟩ := Option.ne_none_iff_exists'.mp decodes
  simp only [gates, decoded]
  by_cases limited : rateLimited services route = true
  · left
    rw [if_pos limited]
    refine ⟨_, _, rfl, fun admitted => ?_⟩
    rw [admitted.rate] at limited
    cases limited
  · rw [if_neg limited]
    cases checked : route.requiredParameters.find? (!accepts request ·) with
    | some required =>
        left
        refine ⟨_, _, rfl, fun admitted => ?_⟩
        have member := List.mem_of_find?_eq_some checked
        have refused := List.find?_some checked
        have accepted : accepts request required = true :=
          (accepts_iff request required).mpr
            ⟨admitted.typed required member, admitted.nonempty required member⟩
        simp [accepted] at refused
    | none =>
        have accepted : ∀ required ∈ route.requiredParameters, accepts request required = true := by
          intro required member
          simpa using List.find?_eq_none.mp checked required member
        have same := session_recordCall services api id key route
        rcases checkHuman_cases (recordCall services api key route) id kind request
          { view with parameters := parameters } response route with
          ⟨after, reply, equal, human, wrong⟩ | ⟨after, equal, right⟩
        · left
          refine ⟨after, reply, equal, fun admitted => ?_⟩
          rw [same] at wrong
          exact wrong (admitted.human human).1 (admitted.human human).2
        · right
          rw [same] at right
          refine ⟨after, _, equal, ⟨by simpa using limited, ?_, ?_, ?_⟩, fun human => (right human).2.2⟩
          · exact fun required member => ((accepts_iff request required).mp (accepted required member)).1
          · exact fun required member => ((accepts_iff request required).mp (accepted required member)).2
          · exact fun human => ⟨(right human).1, (right human).2.1⟩

end Gates

/-- The API once the session of a request is open. -/
def opened (services : Services) (api : HttpApi σ) (request : JsonObject) : HttpApi σ :=
  openSession services api ((withSession services api request).str sessionKey)

theorem opened_routemap (services : Services) (api : HttpApi σ) (request : JsonObject) :
    (opened services api request).routemap = api.routemap := by
  unfold opened openSession
  split <;> rfl

theorem dispatch_eq (services : Services) (api : HttpApi σ) (state : σ) (kind : RequestResult)
    (request : JsonObject) :
    dispatch services api state kind request =
      dispatchIn services (opened services api request) state kind
        (withSession services api request) :=
  rfl

section Dispatch

variable (services : Services) (api : HttpApi σ) (state : σ) (kind : RequestResult)
  (request : JsonObject) (fuel : Nat)

/-- The session of a request that has one. -/
def sessionOf (api : HttpApi σ) (request : JsonObject) : Session :=
  api.session (request.str sessionKey)

def sessionResponse (request : JsonObject) : HttpResponse :=
  HttpResponse.default.setHeader sessionKey (request.str sessionKey)

theorem dispatchIn_http :
    dispatchIn services api state .http request fuel =
      some ⟨api, state, [],
        .reply (.respondHttp (requestedView request) (sessionResponse request))⟩ := by
  simp only [dispatchIn, if_true, sessionResponse]

variable {kind request}

theorem dispatchIn_captcha (gated : kind ≠ .http) (key : routeKey kind request = captchaRouteKey) :
    dispatchIn services api state kind request fuel =
      some ⟨api.setCaptcha (request.str sessionKey)
          (shownCaptcha services (sessionOf api request) request), state, [],
        showCaptcha services (sessionResponse request)
          (shownCaptcha services (sessionOf api request) request)⟩ := by
  simp only [dispatchIn, gated, key, if_false, if_true, sessionResponse, sessionOf]

theorem dispatchIn_unrouted (gated : kind ≠ .http) (key : routeKey kind request ≠ captchaRouteKey)
    (unrouted : KeyedList.get? api.routemap (routeKey kind request) = none) :
    dispatchIn services api state kind request fuel =
      some ⟨api, state, [], .reply (refuse kind (requestedView request) (sessionResponse request)
        (bytes "Bad route."))⟩ := by
  simp only [dispatchIn, gated, key, if_false, unrouted, sessionResponse]

variable {route : Route σ}

theorem dispatchIn_refused (gated : kind ≠ .http) (key : routeKey kind request ≠ captchaRouteKey)
    (routed : KeyedList.get? api.routemap (routeKey kind request) = some route)
    {after : HttpApi σ} {ending : Ending}
    (refused : gates services api (request.str sessionKey) kind request (requestedView request)
      (sessionResponse request) (routeKey kind request) route = (after, .error ending)) :
    dispatchIn services api state kind request fuel = some ⟨after, state, [], ending⟩ := by
  unfold sessionResponse at refused
  simp only [dispatchIn, gated, key, if_false, routed, refused]

theorem dispatchIn_passed (gated : kind ≠ .http) (key : routeKey kind request ≠ captchaRouteKey)
    (routed : KeyedList.get? api.routemap (routeKey kind request) = some route)
    {after : HttpApi σ} {view : View}
    (passed : gates services api (request.str sessionKey) kind request (requestedView request)
      (sessionResponse request) (routeKey kind request) route = (after, .ok view)) :
    dispatchIn services api state kind request fuel =
      invoke services after state (request.str sessionKey) (routeKey kind request) request
        (sessionResponse request) kind view route fuel := by
  unfold sessionResponse at passed ⊢
  simp only [dispatchIn, gated, key, if_false, routed, passed]

end Dispatch

namespace Sample

def services : Services where
  details := bytes "127.0.0.1"
  sessionSeconds := 0
  createdSeconds := 0
  callMilliseconds := 0
  sha256Hash := id
  getCaptcha := bytes "234567"
  secretCaptchaUrl := []
  communicate _ _ := none
  crypto := ⟨id, some, fun _ => List.replicate 32 0, id, id⟩
  doDebug := false
  ii := 0
  stale _ := 0

def unrouted : HttpApi Unit :=
  ⟨bytes "public", [], 0, false, [], []⟩

def items : HttpApi Unit :=
  unrouted.route (bytes "GET") (bytes "/item") (fun _ state => ([], state)) [(bytes "id", .string)] 0
    false

end Sample

end HttpApi

end Libjaypea
