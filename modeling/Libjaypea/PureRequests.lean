import Libjaypea.DispatchCalls
import Mathlib.Data.List.Find

/-!
# Pure requests and HTTP requests

A text without an HTTP start line is a pure request.  The gates treat it like
an HTTP request for the API with the same method, route and parameters, but no
handler is called for it: behind the gates it is answered by `respond_404`.
-/

namespace Libjaypea

open Fuelled JsonObject

namespace HttpApi

variable {σ : Type}

/-- The members that tell the two kinds of requests apart. -/
def framing : List Bytes :=
  [bytes "protocol", bytes "Content-Type"]

def HasText (request : JsonObject) (key : Bytes) : Prop :=
  request.hasObj key .string = true ∧ request.str key ≠ []

/-- The objects of a pure request and of an HTTP request that ask for the same. -/
structure Twins (pureRequest httpRequest : JsonObject) : Prop where
  members : ∀ key ∉ framing, KeyedList.get? pureRequest.objectValues key =
    KeyedList.get? httpRequest.objectValues key
  protocol : KeyedList.get? pureRequest.objectValues (bytes "protocol") =
      KeyedList.get? httpRequest.objectValues (bytes "protocol") ∨
    HasText pureRequest (bytes "protocol") ∧ HasText httpRequest (bytes "protocol")
  contentType : KeyedList.get? pureRequest.objectValues (bytes "Content-Type") =
      KeyedList.get? httpRequest.objectValues (bytes "Content-Type") ∨
    KeyedList.get? pureRequest.objectValues (bytes "Content-Type") = none

section Agreement

variable {first second : JsonObject} {key : Bytes}

theorem accepts_congr (same : KeyedList.get? first.objectValues key =
    KeyedList.get? second.objectValues key) (type : JsonType) :
    accepts first (key, type) = accepts second (key, type) := by
  unfold accepts
  rw [hasObj_congr same, hasObj_congr same, str_congr same]

theorem hasText_of_get? {value : Bytes}
    (found : KeyedList.get? first.objectValues key = some (ofString value)) (nonempty : value ≠ []) :
    HasText first key := by
  constructor
  · simp [hasObj, found, ofString]
  · simpa [str, getStr, found, ofString] using nonempty

/-- A text is accepted as a string and as nothing else. -/
theorem accepts_of_hasText (text : HasText first key) (type : JsonType) :
    accepts first (key, type) = decide (type = .string) := by
  obtain ⟨isString, nonempty⟩ := text
  have typed : first.hasObj key type = decide (type = .string) := by
    unfold hasObj at isString ⊢
    cases found : KeyedList.get? first.objectValues key with
    | none => simp [found] at isString
    | some child =>
        simp only [found, decide_eq_true_eq] at isString
        simp only [isString, eq_comm]
  simp [accepts, typed, isString, nonempty]

end Agreement

namespace Twins

variable {pureRequest httpRequest : JsonObject} (twins : Twins pureRequest httpRequest)
include twins

theorem hasObj_eq {key : Bytes} (asked : key ∉ framing) (type : JsonType) :
    pureRequest.hasObj key type = httpRequest.hasObj key type :=
  hasObj_congr (twins.members key asked) type

theorem str_eq {key : Bytes} (asked : key ∉ framing) :
    pureRequest.str key = httpRequest.str key :=
  str_congr (twins.members key asked)

/-- A test of a member that the pure request has comes out alike. -/
theorem accepts_eq {required : Bytes × JsonType} (present : ¬ Lacks pureRequest required) :
    accepts pureRequest required = accepts httpRequest required := by
  obtain ⟨key, type⟩ := required
  by_cases asked : key ∈ framing
  · simp only [framing, List.mem_cons, List.not_mem_nil, or_false] at asked
    rcases asked with rfl | rfl
    · rcases twins.protocol with same | ⟨pureText, httpText⟩
      · exact accepts_congr same type
      · rw [accepts_of_hasText pureText, accepts_of_hasText httpText]
    · rcases twins.contentType with same | missing
      · exact accepts_congr same type
      · exact absurd missing present
  · exact accepts_congr (twins.members key asked) type

/-- The framing of an HTTP request only adds members. -/
theorem lacks {required : Bytes × JsonType} (lacks : Lacks httpRequest required) :
    Lacks pureRequest required := by
  obtain ⟨key, type⟩ := required
  unfold Lacks at lacks ⊢
  by_cases asked : key ∈ framing
  · simp only [framing, List.mem_cons, List.not_mem_nil, or_false] at asked
    rcases asked with rfl | rfl
    · rcases twins.protocol with same | ⟨-, httpText⟩
      · exact same.trans lacks
      · simp [HasText, hasObj, lacks] at httpText
    · rcases twins.contentType with same | missing
      · exact same.trans lacks
      · exact missing
  · exact (twins.members key asked).trans lacks

/-- A change that leaves the framing alone and treats both requests alike. -/
theorem of_change {pureAfter httpAfter : JsonObject}
    (pureKept : ∀ key ∈ framing, KeyedList.get? pureAfter.objectValues key =
      KeyedList.get? pureRequest.objectValues key)
    (httpKept : ∀ key ∈ framing, KeyedList.get? httpAfter.objectValues key =
      KeyedList.get? httpRequest.objectValues key)
    (members : ∀ key ∉ framing, KeyedList.get? pureAfter.objectValues key =
      KeyedList.get? httpAfter.objectValues key) : Twins pureAfter httpAfter := by
  have protocol : bytes "protocol" ∈ framing := by decide
  have contentType : bytes "Content-Type" ∈ framing := by decide
  constructor
  · exact members
  · rw [pureKept _ protocol, httpKept _ protocol, HasText, HasText,
      hasObj_congr (pureKept _ protocol), hasObj_congr (httpKept _ protocol),
      str_congr (pureKept _ protocol), str_congr (httpKept _ protocol)]
    exact twins.protocol
  · rw [pureKept _ contentType, httpKept _ contentType]
    exact twins.contentType

theorem setMember {key : Bytes} (value : JsonObject) (asked : key ∉ framing) :
    Twins (pureRequest.setMember key value) (httpRequest.setMember key value) := by
  have kept : ∀ request : JsonObject, ∀ other ∈ framing,
      KeyedList.get? (request.setMember key value).objectValues other =
        KeyedList.get? request.objectValues other := by
    intro request other member
    apply KeyedList.get?_set_of_ne
    rintro rfl
    exact asked member
  apply twins.of_change (kept _) (kept _)
  intro other unframed
  simp only [JsonObject.setMember, KeyedList.get?_set, twins.members other unframed]

theorem eraseMember {key : Bytes} (asked : key ∉ framing) :
    Twins (pureRequest.eraseMember key) (httpRequest.eraseMember key) := by
  have kept : ∀ request : JsonObject, ∀ other ∈ framing,
      KeyedList.get? (request.eraseMember key).objectValues other =
        KeyedList.get? request.objectValues other := by
    intro request other member
    have different : key ≠ other := by
      rintro rfl
      exact asked member
    rw [JsonObject.eraseMember, KeyedList.get?_erase, if_neg different]
  apply twins.of_change (kept _) (kept _)
  intro other unframed
  simp only [JsonObject.eraseMember, KeyedList.get?_erase, twins.members other unframed]

theorem sessionInput_eq (services : Services) :
    sessionInput services pureRequest = sessionInput services httpRequest := by
  unfold sessionInput
  rw [twins.hasObj_eq (by decide), twins.hasObj_eq (by decide), twins.str_eq (by decide),
    twins.str_eq (by decide)]

/-- Both requests are served under the same session. -/
theorem withSession (services : Services) (api : HttpApi σ) :
    Twins (HttpApi.withSession services api pureRequest)
      (HttpApi.withSession services api httpRequest) := by
  have asked : sessionKey ∉ framing := by decide
  have known : ∀ {first second : JsonObject}, Twins first second →
      Twins
        (if first.hasObj sessionKey .string then first
          else first.setMember sessionKey (.ofString (services.sha256Hash (sessionInput services first))))
        (if second.hasObj sessionKey .string then second
          else second.setMember sessionKey
            (.ofString (services.sha256Hash (sessionInput services second)))) := by
    intro first second alike
    rw [alike.hasObj_eq asked, alike.sessionInput_eq services]
    split
    · exact alike
    · exact alike.setMember _ asked
  unfold HttpApi.withSession
  rw [twins.hasObj_eq asked, twins.str_eq asked]
  apply known
  split
  · exact twins.eraseMember asked
  · exact twins

theorem opened_eq (services : Services) (api : HttpApi σ) :
    opened services api pureRequest = opened services api httpRequest := by
  unfold opened
  rw [(twins.withSession services api).str_eq (by decide)]

theorem routeKey_eq : routeKey .api pureRequest = routeKey .httpApi httpRequest := by
  unfold routeKey namedRouteKey
  rw [twins.hasObj_eq (by decide), twins.hasObj_eq (by decide), twins.str_eq (by decide),
    twins.str_eq (by decide)]
  rfl

theorem sessionOf_eq (api : HttpApi σ) : sessionOf api pureRequest = sessionOf api httpRequest := by
  unfold sessionOf
  rw [twins.str_eq (by decide)]

theorem sessionResponse_eq : sessionResponse pureRequest = sessionResponse httpRequest := by
  unfold sessionResponse
  rw [twins.str_eq (by decide)]

theorem requestedView_eq : requestedView pureRequest = requestedView httpRequest := by
  unfold requestedView
  rw [twins.hasObj_eq (by decide), twins.hasObj_eq (by decide), twins.str_eq (by decide),
    twins.str_eq (by decide)]

theorem shownCaptcha_eq (services : Services) (session : Session) :
    shownCaptcha services session pureRequest = shownCaptcha services session httpRequest := by
  unfold shownCaptcha
  rw [twins.hasObj_eq (by decide), twins.str_eq (by decide)]

end Twins

section Gates

variable {pureRequest httpRequest : JsonObject} (services : Services) (api : HttpApi σ)
  (id key : Bytes) (view : View) (response : HttpResponse) {route : Route σ}

/-- The captcha test answers both requests alike, or lets both pass. -/
theorem checkHuman_alike (twins : Twins pureRequest httpRequest) (pureView httpView : View) :
    (∃ after ending,
      checkHuman api id .api pureRequest pureView response route = (after, .error ending) ∧
        checkHuman api id .httpApi httpRequest httpView response route = (after, .error ending)) ∨
      ∃ after,
        checkHuman api id .api pureRequest pureView response route = (after, .ok pureView) ∧
          checkHuman api id .httpApi httpRequest httpView response route =
            (after, .ok httpView) := by
  have asked : bytes "captcha" ∉ framing := by decide
  unfold checkHuman
  rw [twins.hasObj_eq asked, twins.str_eq asked]
  split_ifs
  · exact .inl ⟨_, _, rfl, rfl⟩
  · exact .inl ⟨_, _, rfl, rfl⟩
  · exact .inr ⟨_, rfl, rfl⟩
  · exact .inr ⟨_, rfl, rfl⟩

/-- Where no required parameter is missing, the gates answer both requests
alike, or let both pass. -/
theorem gates_alike (twins : Twins pureRequest httpRequest)
    (pureComplete : ∀ required ∈ route.requiredParameters, ¬ Lacks pureRequest required)
    (httpComplete : ∀ required ∈ route.requiredParameters, ¬ Lacks httpRequest required) :
    (∃ after ending,
      gates services api id .api pureRequest view response key route = (after, .error ending) ∧
        gates services api id .httpApi httpRequest view response key route =
          (after, .error ending)) ∨
      ∃ after pureView httpView,
        gates services api id .api pureRequest view response key route = (after, .ok pureView) ∧
          gates services api id .httpApi httpRequest view response key route =
            (after, .ok httpView) := by
  have decodes : ∀ request : JsonObject,
      (∀ required ∈ route.requiredParameters, ¬ Lacks request required) →
        ∃ parameters, decodeParameters services request route.requiredParameters view.parameters =
          some parameters := by
    intro request complete
    apply Option.ne_none_iff_exists'.mp
    rw [Ne, decodeParameters_eq_none]
    rintro ⟨required, member, lacks⟩
    exact complete required member lacks
  obtain ⟨pureParameters, pureDecoded⟩ := decodes pureRequest pureComplete
  obtain ⟨httpParameters, httpDecoded⟩ := decodes httpRequest httpComplete
  have tests : route.requiredParameters.find? (!accepts pureRequest ·) =
      route.requiredParameters.find? (!accepts httpRequest ·) := by
    apply List.find?_congr
    intro required member
    rw [twins.accepts_eq (pureComplete required member)]
  simp only [gates, pureDecoded, httpDecoded, tests]
  by_cases limited : rateLimited services route = true
  · rw [if_pos limited, if_pos limited]
    exact .inl ⟨_, _, rfl, rfl⟩
  · rw [if_neg limited, if_neg limited]
    cases route.requiredParameters.find? (!accepts httpRequest ·) with
    | some required => exact .inl ⟨_, _, rfl, rfl⟩
    | none =>
        rcases checkHuman_alike (recordCall services api key route) id response twins
          { view with parameters := pureParameters } { view with parameters := httpParameters } with
          ⟨after, ending, same⟩ | ⟨after, same⟩
        · exact .inl ⟨after, ending, same⟩
        · exact .inr ⟨after, _, _, same⟩

/-- A gate answers an API request with a JSON error, or decoding throws. -/
theorem gates_refusal {kind : RequestResult} {request : JsonObject} {after : HttpApi σ}
    {ending : Ending}
    (runs : gates services api id kind request view response key route = (after, .error ending)) :
    ending = .threw .exceptionPointer ∨
      ∃ shown message, ending = .reply (refuse kind shown response message) := by
  unfold gates at runs
  dsimp only at runs
  split at runs
  · cases runs
    exact .inl rfl
  · right
    split at runs
    · cases runs
      exact ⟨_, _, rfl⟩
    · split at runs
      · cases runs
        exact ⟨_, _, rfl⟩
      · unfold checkHuman at runs
        split_ifs at runs
        · cases runs
          exact ⟨_, _, rfl⟩
        · cases runs
          exact ⟨_, _, rfl⟩
        · cases runs
        · cases runs

theorem Admitted.complete {session : Session} {request : JsonObject}
    (admitted : Admitted services session request route) :
    ∀ required ∈ route.requiredParameters, ¬ Lacks request required := by
  intro required member lacks
  have typed := admitted.typed required member
  unfold Lacks at lacks
  simp [hasObj, lacks] at typed

/-- A route that refuses the HTTP request, and lacks no parameter in the pure
request only, refuses both alike. -/
theorem gates_refuse_alike (twins : Twins pureRequest httpRequest)
    (refused : ¬ Admitted services (api.session id) httpRequest route)
    (lacking : (∃ required ∈ route.requiredParameters, Lacks pureRequest required) →
      ∃ required ∈ route.requiredParameters, Lacks httpRequest required) :
    ∃ after ending,
      gates services api id .api pureRequest view response key route = (after, .error ending) ∧
        gates services api id .httpApi httpRequest view response key route =
          (after, .error ending) := by
  by_cases complete : ∀ required ∈ route.requiredParameters, ¬ Lacks httpRequest required
  · have pureComplete : ∀ required ∈ route.requiredParameters, ¬ Lacks pureRequest required := by
      intro required member lacks
      obtain ⟨other, otherMember, otherLacks⟩ := lacking ⟨required, member, lacks⟩
      exact complete other otherMember otherLacks
    rcases gates_alike services api id key view response twins pureComplete complete with
      same | ⟨after, pureView, httpView, -, passed⟩
    · exact same
    · rcases gates_cases services api id .httpApi httpRequest view response key route complete with
        ⟨other, reply, equal, -⟩ | ⟨other, view, equal, admitted, -⟩
      · rw [passed] at equal
        cases equal
      · exact absurd admitted refused
  · push Not at complete
    obtain ⟨required, member, lacks⟩ := complete
    exact ⟨_, _, gates_of_lacks services api _ _ _ _ _ _ route member (twins.lacks lacks),
      gates_of_lacks services api _ _ _ _ _ _ route member lacks⟩

end Gates

/-- The answer is given before any handler: by the captcha route, for an
unknown route, or by a gate.  No required parameter is missing from the pure
request only. -/
def Stops (services : Services) (api : HttpApi σ) (pureRequest httpRequest : JsonObject) : Prop :=
  routeKey .httpApi httpRequest ≠ captchaRouteKey →
    ∀ route, KeyedList.get? api.routemap (routeKey .httpApi httpRequest) = some route →
      ¬ Admitted services (sessionOf api httpRequest) httpRequest route ∧
        ((∃ required ∈ route.requiredParameters, Lacks pureRequest required) →
          ∃ required ∈ route.requiredParameters, Lacks httpRequest required)

/-- An ending that needs no file: `on_read` throws, or responds by itself. -/
inductive Direct : Ending → Prop
  | threw (thrown : Thrown) : Direct (.threw thrown)
  | respond (response : HttpResponse) : Direct (.reply (.respond response))
  | respond404 : Direct (.reply .respond404)

theorem direct_showCaptcha (services : Services) (response : HttpResponse) (captcha : Bytes) :
    Direct (showCaptcha services response captcha) := by
  unfold showCaptcha
  dsimp only
  split
  · exact .respond _
  · split
    · exact .threw _
    · exact .respond _

section Dispatch

variable {pureRequest httpRequest : JsonObject} (services : Services) (api : HttpApi σ) (state : σ)

/-- Before the handlers both requests are treated alike. -/
theorem dispatchIn_alike (twins : Twins pureRequest httpRequest)
    (stops : Stops services api pureRequest httpRequest) :
    ∃ dispatched, (∀ fuel, dispatchIn services api state .api pureRequest fuel = some dispatched) ∧
      (∀ fuel, dispatchIn services api state .httpApi httpRequest fuel = some dispatched) ∧
        dispatched.calls = [] ∧ Direct dispatched.ending := by
  have pureGated : RequestResult.api ≠ .http := by decide
  have httpGated : RequestResult.httpApi ≠ .http := by decide
  have keys := twins.routeKey_eq
  have ids : pureRequest.str sessionKey = httpRequest.str sessionKey := twins.str_eq (by decide)
  by_cases captcha : routeKey .httpApi httpRequest = captchaRouteKey
  · refine ⟨_, fun fuel => ?_, fun fuel => dispatchIn_captcha services api state fuel httpGated
      captcha, rfl, direct_showCaptcha _ _ _⟩
    rw [dispatchIn_captcha services api state fuel pureGated (keys.trans captcha), ids,
      twins.sessionOf_eq, twins.shownCaptcha_eq, twins.sessionResponse_eq]
  cases routed : KeyedList.get? api.routemap (routeKey .httpApi httpRequest) with
  | none =>
      refine ⟨_, fun fuel => ?_, fun fuel => dispatchIn_unrouted services api state fuel httpGated
        captcha routed, rfl, .respond _⟩
      rw [dispatchIn_unrouted services api state fuel pureGated (by rwa [keys]) (by rwa [keys]),
        twins.sessionResponse_eq]
      rfl
  | some route =>
      obtain ⟨refused, lacking⟩ := stops captcha route routed
      obtain ⟨after, ending, pureRefused, httpRefused⟩ : ∃ after ending,
          gates services api (pureRequest.str sessionKey) .api pureRequest
              (requestedView pureRequest) (sessionResponse pureRequest)
              (routeKey .api pureRequest) route = (after, .error ending) ∧
            gates services api (httpRequest.str sessionKey) .httpApi httpRequest
              (requestedView httpRequest) (sessionResponse httpRequest)
              (routeKey .httpApi httpRequest) route = (after, .error ending) := by
        rw [ids, twins.requestedView_eq, twins.sessionResponse_eq, keys]
        exact gates_refuse_alike services api _ _ _ _ twins refused lacking
      refine ⟨⟨after, state, [], ending⟩, fun fuel => ?_, fun fuel => ?_, rfl, ?_⟩
      · exact dispatchIn_refused services api state fuel pureGated (by rwa [keys]) (by rwa [keys])
          pureRefused
      · exact dispatchIn_refused services api state fuel httpGated captcha routed httpRefused
      · rcases gates_refusal services api _ _ _ _ httpRefused with rfl | ⟨shown, message, rfl⟩
        · exact .threw _
        · exact .respond _

/-- An answer of the API is a JSON object, the page of `respond_404` is not. -/
def JsonAnswer (ending : Ending) : Prop :=
  ∃ response, ending = .reply (.respond response) ∧ response.body.head? = some (ch '{')

/-- Behind the gates a route registered for the API calls its handler, or
answers that the token is missing or wrong. -/
theorem invoke_httpApi (id key : Bytes) (request : JsonObject) (response : HttpResponse)
    (view : View) {route : Route σ} (handled : ∃ handler, Has route handler)
    (apiOnly : route.formFunction = none) {fuel : Nat} {dispatched : Dispatched σ}
    (runs : invoke services api state id key request response .httpApi view route fuel =
      some dispatched) :
    dispatched.calls ≠ [] ∨ JsonAnswer dispatched.ending := by
  simp only [invoke, invokeApi] at runs
  cases function : route.function with
  | some function' =>
      simp only [function] at runs
      cases runs
      exact .inl (List.cons_ne_nil _ _)
  | none =>
      cases token : route.tokenFunction with
      | none =>
          obtain ⟨handler, has⟩ := handled
          cases handler with
          | function => exact absurd function has
          | formFunction => exact absurd apiOnly has
          | tokenFunction => exact absurd token has
      | some tokenFunction =>
          simp only [function, token, invokeToken] at runs
          split at runs
          · cases runs
            exact .inr ⟨_, rfl, rfl⟩
          · split at runs
            · cases runs
              exact .inr ⟨_, rfl, rfl⟩
            · obtain ⟨parsed, -, rfl⟩ := Option.map_eq_some_iff.mp runs
              exact .inl (List.cons_ne_nil _ _)

/-- The gates let the HTTP request pass, or a parameter is missing from the
pure request only. -/
structure Due (services : Services) (api : HttpApi σ) (pureRequest httpRequest : JsonObject)
    (route : Route σ) : Prop where
  captcha : routeKey .httpApi httpRequest ≠ captchaRouteKey
  routed : KeyedList.get? api.routemap (routeKey .httpApi httpRequest) = some route
  complete : ∀ required ∈ route.requiredParameters, ¬ Lacks httpRequest required
  reason : Admitted services (sessionOf api httpRequest) httpRequest route ∨
    ∃ required ∈ route.requiredParameters, Lacks pureRequest required

theorem exists_due (due : ¬ Stops services api pureRequest httpRequest) :
    ∃ route, Due services api pureRequest httpRequest route := by
  unfold Stops at due
  push Not at due
  obtain ⟨captcha, route, routed, due⟩ := due
  by_cases admitted : Admitted services (sessionOf api httpRequest) httpRequest route
  · exact ⟨route, captcha, routed, admitted.complete services, .inl admitted⟩
  · obtain ⟨lacks, complete⟩ := due admitted
    exact ⟨route, captcha, routed, complete, .inr lacks⟩

variable {services api} {route : Route σ}

/-- No handler is called for a pure request. -/
theorem Due.dispatchIn_pure (twins : Twins pureRequest httpRequest)
    (due : Due services api pureRequest httpRequest route) :
    ∃ dispatched, (∀ fuel, dispatchIn services api state .api pureRequest fuel = some dispatched) ∧
      dispatched.calls = [] ∧
        (dispatched.ending = .threw .exceptionPointer ∨
          dispatched.ending = .reply .respond404) := by
  have gated : RequestResult.api ≠ .http := by decide
  have keys := twins.routeKey_eq
  have captcha : routeKey .api pureRequest ≠ captchaRouteKey := by
    rw [keys]
    exact due.captcha
  have routed : KeyedList.get? api.routemap (routeKey .api pureRequest) = some route := by
    rw [keys]
    exact due.routed
  by_cases complete : ∀ required ∈ route.requiredParameters, ¬ Lacks pureRequest required
  · have admitted : Admitted services (sessionOf api httpRequest) httpRequest route := by
      rcases due.reason with admitted | ⟨required, member, lacks⟩
      · exact admitted
      · exact absurd lacks (complete required member)
    rcases gates_alike services api (httpRequest.str sessionKey)
      (routeKey .httpApi httpRequest) (requestedView httpRequest)
      (sessionResponse httpRequest) twins complete due.complete with
      ⟨after, ending, -, refused⟩ | ⟨after, pureView, httpView, passed, -⟩
    · rcases gates_cases services api (httpRequest.str sessionKey) .httpApi httpRequest
        (requestedView httpRequest) (sessionResponse httpRequest)
        (routeKey .httpApi httpRequest) route due.complete with
        ⟨other, reply, -, notAdmitted⟩ | ⟨other, view, equal, -⟩
      · exact absurd admitted notAdmitted
      · rw [refused] at equal
        cases equal
    · refine ⟨⟨after, state, [], .reply .respond404⟩, fun fuel => ?_, rfl, .inr rfl⟩
      rw [← twins.requestedView_eq, ← twins.sessionResponse_eq, ← keys,
        ← twins.str_eq (by decide)] at passed
      rw [dispatchIn_passed services api state fuel gated captcha routed passed]
      rfl
  · push Not at complete
    obtain ⟨required, member, lacks⟩ := complete
    refine ⟨⟨api, state, [], .threw .exceptionPointer⟩, fun fuel => ?_, rfl, .inl rfl⟩
    apply dispatchIn_refused services api state fuel gated captcha routed
    exact gates_of_lacks services api _ _ _ _ _ _ route member lacks

/-- The HTTP request reaches its handler or is answered by the API. -/
theorem Due.dispatchIn_http (due : Due services api pureRequest httpRequest route)
    (handled : ∃ handler, Has route handler) (apiOnly : route.formFunction = none) {fuel : Nat}
    {dispatched : Dispatched σ}
    (runs : dispatchIn services api state .httpApi httpRequest fuel = some dispatched) :
    dispatched.calls ≠ [] ∨ JsonAnswer dispatched.ending := by
  have gated : RequestResult.httpApi ≠ .http := by decide
  rcases gates_cases services api (httpRequest.str sessionKey) .httpApi httpRequest
    (requestedView httpRequest) (sessionResponse httpRequest)
    (routeKey .httpApi httpRequest) route due.complete with
    ⟨after, reply, refused, -⟩ | ⟨after, view, passed, -⟩
  · right
    rw [dispatchIn_refused services api state fuel gated due.captcha due.routed refused] at runs
    cases runs
    rcases gates_refusal services api _ _ _ _ refused with threw | ⟨shown, message, answered⟩
    · cases threw
    · exact ⟨_, answered, rfl⟩
  · rw [dispatchIn_passed services api state fuel gated due.captcha due.routed passed] at runs
    exact invoke_httpApi services after state _ _ _ _ _ handled apiOnly runs

end Dispatch

section Answers

/-- The body of a response. -/
def Event.body : Event → Option Bytes
  | .responded response _ => some response.body
  | _ => none

def bodies (events : List Event) : List Bytes :=
  events.filterMap Event.body

/-- The body that an ending which needs no file responds with. -/
def bodyOf : Ending → Option Bytes
  | .reply (.respond response) => some response.body
  | .reply .respond404 => some (bytes "<h1 style='text-align:center;'>404 Not Found</h1>")
  | _ => none

/-- The same handler for the same route, with the same parameters. -/
structure SameCall (first second : Call) : Prop where
  handler : first.handler = second.handler
  routeKey : first.routeKey = second.routeKey
  parameters : ∀ key ∉ framing, KeyedList.get? first.request.objectValues key =
    KeyedList.get? second.request.objectValues key
  token : first.token = second.token

/-- Both requests are served to their end, with the same calls of handlers and
the same response bodies. -/
def Equivalent (services : Services) (system : System σ) (api : HttpApi σ) (world : World σ)
    (fd : Int) (pureRequest httpRequest : JsonObject) : Prop :=
  ∃ first second : Outcome σ,
    Converges (onRead services system api world fd .api pureRequest) first ∧
      Converges (onRead services system api world fd .httpApi httpRequest) second ∧
        List.Forall₂ SameCall first.calls second.calls ∧
          bodies first.world.events = bodies second.world.events

theorem bodies_respond (system : System σ) (world : World σ) (fd : Int) (response : HttpResponse) :
    bodies (respond system world fd response).2.events =
      bodies world.events ++ [response.body] := by
  simp [bodies, respond, Event.body, body_withContentLength, List.filterMap_append]

/-- What a client sees of a request that needs no file. -/
theorem onRead_of_direct {services : Services} {api : HttpApi σ} {world : World σ}
    {kind : RequestResult} {request : JsonObject} {fuel : Nat} {dispatched : Dispatched σ}
    (system : System σ) (fd : Int)
    (runs : dispatch services api world.state kind request fuel = some dispatched)
    (direct : Direct dispatched.ending) :
    ∃ outcome, onRead services system api world fd kind request fuel = some outcome ∧
      outcome.calls = dispatched.calls ∧
        bodies outcome.world.events =
          bodies world.events ++ (bodyOf dispatched.ending).toList := by
  obtain ⟨after, state, calls, ending⟩ := dispatched
  unfold onRead
  rw [runs]
  cases direct with
  | threw thrown => exact ⟨_, rfl, rfl, (List.append_nil _).symm⟩
  | respond response => exact ⟨_, rfl, rfl, bodies_respond system ⟨state, world.events⟩ fd response⟩
  | respond404 => exact ⟨_, rfl, rfl, bodies_respond system ⟨state, world.events⟩ fd _⟩

/-- Every registered route has the handler that it was registered with. -/
theorem Reachable.handled {api : HttpApi σ} (reachable : Reachable api) :
    Routes (fun _ route => ∃ handler, Has route handler) api := by
  refine reachable.routes ?_ ?_ ?_ ?_
  · intro method path function requiredParameters rateLimit requiresHuman
    exact ⟨.formFunction, Option.some_ne_none _⟩
  · intro method path function requiredParameters rateLimit requiresHuman
    exact ⟨.function, Option.some_ne_none _⟩
  · intro method path function requiredParameters rateLimit requiresHuman
    exact ⟨.tokenFunction, Option.some_ne_none _⟩
  · rintro key route calls ⟨handler, has⟩
    exact ⟨handler, by cases handler <;> exact has⟩

/-- The two requests stop before the handlers, once their session is known. -/
def StopsEarly (services : Services) (api : HttpApi σ) (pureRequest httpRequest : JsonObject) :
    Prop :=
  Stops services (opened services api httpRequest) (withSession services api pureRequest)
    (withSession services api httpRequest)

variable {services : Services} {system : System σ} {api : HttpApi σ} {world : World σ} {fd : Int}
  {pureRequest httpRequest : JsonObject}

theorem equivalent_of_stopsEarly (twins : Twins pureRequest httpRequest)
    (early : StopsEarly services api pureRequest httpRequest) :
    Equivalent services system api world fd pureRequest httpRequest := by
  obtain ⟨dispatched, pureRuns, httpRuns, noCalls, direct⟩ :=
    dispatchIn_alike services (opened services api httpRequest) world.state
      (twins.withSession services api) early
  have pureDispatched : dispatch services api world.state .api pureRequest 0 = some dispatched := by
    rw [dispatch_eq, twins.opened_eq]
    exact pureRuns 0
  have httpDispatched : dispatch services api world.state .httpApi httpRequest 0 =
      some dispatched := httpRuns 0
  obtain ⟨first, firstRuns, firstCalls, firstBodies⟩ :=
    onRead_of_direct system fd pureDispatched direct
  obtain ⟨second, secondRuns, secondCalls, secondBodies⟩ :=
    onRead_of_direct system fd httpDispatched direct
  refine ⟨first, second, ⟨0, firstRuns⟩, ⟨0, secondRuns⟩, ?_, firstBodies.trans secondBodies.symm⟩
  rw [firstCalls, secondCalls, noCalls]
  exact .nil

/-- A request that is due tells the two kinds apart. -/
theorem stopsEarly_of_equivalent (reachable : Reachable api)
    (apiOnly : Routes (fun _ route => route.formFunction = none) api)
    (twins : Twins pureRequest httpRequest)
    (equivalent : Equivalent services system api world fd pureRequest httpRequest) :
    StopsEarly services api pureRequest httpRequest := by
  by_contra late
  obtain ⟨route, due⟩ := exists_due services (opened services api httpRequest) late
  have registered := due.routed
  rw [opened_routemap] at registered
  obtain ⟨first, second, ⟨firstFuel, firstRuns⟩, ⟨secondFuel, secondRuns⟩, calls, sameBodies⟩ :=
    equivalent
  obtain ⟨dispatched, pureRuns, noCalls, ending⟩ :=
    due.dispatchIn_pure world.state (twins.withSession services api)
  have pureDispatched : dispatch services api world.state .api pureRequest firstFuel =
      some dispatched := by
    rw [dispatch_eq, twins.opened_eq]
    exact pureRuns firstFuel
  have direct : Direct dispatched.ending := by
    rcases ending with threw | missing
    · rw [threw]
      exact .threw _
    · rw [missing]
      exact .respond404
  obtain ⟨outcome, outcomeRuns, pureCalls, pureBodies⟩ :=
    onRead_of_direct system fd pureDispatched direct
  cases firstRuns.symm.trans outcomeRuns
  obtain ⟨other, httpDispatched, httpCalls, -⟩ := onRead_cases secondRuns
  have answered := due.dispatchIn_http world.state (reachable.handled _ route registered)
    (apiOnly _ route registered) httpDispatched
  rcases answered with called | ⟨response, responds, json⟩
  · rw [pureCalls, noCalls, List.forall₂_nil_left_iff, httpCalls] at calls
    exact called calls
  · have httpDirect : Direct other.ending := by
      rw [responds]
      exact .respond _
    obtain ⟨answer, answerRuns, -, httpBodies⟩ := onRead_of_direct system fd httpDispatched httpDirect
    cases secondRuns.symm.trans answerRuns
    rw [pureBodies, httpBodies, List.append_cancel_left_eq, responds] at sameBodies
    rcases ending with threw | missing
    · rw [threw] at sameBodies
      cases sameBodies
    · rw [missing] at sameBodies
      have page : bytes "<h1 style='text-align:center;'>404 Not Found</h1>" = response.body :=
        List.singleton_injective sameBodies
      rw [← page] at json
      exact absurd json (by decide)

end Answers

end HttpApi

end Libjaypea
