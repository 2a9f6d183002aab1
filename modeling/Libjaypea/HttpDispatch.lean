import Libjaypea.FileServing
import Libjaypea.HttpRequest
import Libjaypea.SymmetricEncryptor

/-!
# The dispatch of a request

The callback that `HttpApi::start` installs: session, route key, captcha,
parameter decoding, rate limit, required parameters, captcha answer and the
three kinds of handlers.  A request ends with one call of a responder or with
an exception; the calls of handlers are recorded.
-/

namespace Libjaypea

namespace JsonObject

def setMember (this : JsonObject) (key : Bytes) (value : JsonObject) : JsonObject :=
  { this with objectValues := KeyedList.set this.objectValues key value }

def eraseMember (this : JsonObject) (key : Bytes) : JsonObject :=
  { this with objectValues := KeyedList.erase this.objectValues key }

/-- `GetStr` behind a check that the key is there. -/
def str (this : JsonObject) (key : Bytes) : Bytes :=
  (this.getStr key).getD []

section Members

variable {first second : JsonObject} {key : Bytes}

theorem hasObj_congr
    (same : KeyedList.get? first.objectValues key = KeyedList.get? second.objectValues key)
    (type : JsonType) : first.hasObj key type = second.hasObj key type := by
  unfold hasObj
  rw [same]

theorem str_congr
    (same : KeyedList.get? first.objectValues key = KeyedList.get? second.objectValues key) :
    first.str key = second.str key := by
  unfold str getStr
  rw [same]

end Members

def getURLDecodedStr (ii : UInt8) (this : JsonObject) (key : Bytes) : Option Bytes :=
  (this.getStr key).map (Util.urlDecode ii)

end JsonObject

/-- `throw new std::exception()` throws a pointer, which no handler of
`std::exception` catches. -/
inductive Thrown
  | exceptionPointer
  | outOfRange
  deriving DecidableEq, Repr

/-- What the callback asks of the server, the clock, the random generator and
the program's arguments, during one request. -/
structure Services where
  /-- `fd_to_details_map[fd]`. -/
  details : Bytes
  /-- The clock when the age of the session is checked, in seconds. -/
  sessionSeconds : Int
  /-- The clock when a session is created, in seconds. -/
  createdSeconds : Int
  /-- The clock when the rate limit is checked, in milliseconds. -/
  callMilliseconds : Int
  sha256Hash : Bytes → Bytes
  getCaptcha : Bytes
  secretCaptchaUrl : Bytes
  /-- The response to a request sent to a host, `none` when that fails. -/
  communicate : Bytes → Bytes → Option Bytes
  crypto : CryptoPP
  /-- Whether the build defines `DO_DEBUG`. -/
  doDebug : Bool
  /-- The byte that `url_decode` leaves uninitialised. -/
  ii : UInt8
  /-- The memory behind the text of a token. -/
  stale : Memory

namespace TlsClientManager

def getBody (services : Services) (hostname path : Bytes) : Bytes :=
  let request := bytes "GET " ++ path ++ bytes " HTTP/1.1\r\n" ++
    bytes "Host: " ++ hostname ++ bytes "\r\n" ++ bytes "Connection: close\r\n" ++
    bytes "User-Agent: libjaypea\r\n" ++ bytes "Accept: */*\r\n\r\n"
  match services.communicate hostname request with
  | none => bytes "\x7b\"error\":\"Failed to communicate to host " ++ hostname ++ bytes ".\"\x7d"
  | some response =>
      match Util.find (bytes "\r\n\r\n") response with
      | none => response
      | some bodySeparator => response.drop (bodySeparator + 4)

/-- The part of a URL behind `https://`. -/
def withoutScheme (url : Bytes) : Bytes :=
  if Util.startsWith url (bytes "https://") then url.drop 8 else url

def get (services : Services) (url : Bytes) : Except Thrown Bytes :=
  if Util.startsWith url (bytes "http://") then .error .exceptionPointer
  else
    match (withoutScheme url).findIdx? (· = ch '/') with
    | none => .error .outOfRange
    | some slash =>
        .ok (getBody services ((withoutScheme url).take slash) ((withoutScheme url).drop slash))

end TlsClientManager

/-- The last call of the callback, with its arguments. -/
inductive Reply
  | respond (response : HttpResponse)
  | respondHttp (view : View) (response : HttpResponse)
  | respond404

/-- How the callback ends. -/
inductive Ending
  | threw (thrown : Thrown)
  | reply (reply : Reply)

inductive Handler
  | function
  | formFunction
  | tokenFunction
  deriving DecidableEq, Repr

/-- The call of a route's handler, with the captcha that the session of the
request holds at that moment. -/
structure Call where
  handler : Handler
  routeKey : Bytes
  request : JsonObject
  token : Option JsonObject
  captcha : Bytes

structure Dispatched (σ : Type) where
  api : HttpApi σ
  state : σ
  calls : List Call
  ending : Ending

def insufficientAccess : Bytes :=
  bytes "\x7b\"error\":\"Insufficient access.\"\x7d"

namespace HttpApi

variable {σ : Type}

section Registration

def endWithSlash (path : Bytes) : Bytes :=
  if path.getLast? ≠ some (ch '/') then path ++ [ch '/'] else path

def setRoute (api : HttpApi σ) (key : Bytes) (route : Route σ) : HttpApi σ :=
  { api with routemap := KeyedList.set api.routemap key route }

def formRoute (api : HttpApi σ) (method path : Bytes) (function : JsonObject → σ → View × σ)
    (requiredParameters : List (Bytes × JsonType)) (rateLimit : Int) (requiresHuman : Bool) :
    HttpApi σ :=
  api.setRoute (method ++ ch ' ' :: path)
    ⟨none, some function, none, requiredParameters, requiresHuman, rateLimit, []⟩

def apiKey (method path : Bytes) : Bytes :=
  method ++ bytes " /api" ++ endWithSlash path

def route (api : HttpApi σ) (method path : Bytes) (function : JsonObject → σ → Bytes × σ)
    (requiredParameters : List (Bytes × JsonType)) (rateLimit : Int) (requiresHuman : Bool) :
    HttpApi σ :=
  api.setRoute (apiKey method path)
    ⟨some function, none, none, requiredParameters, requiresHuman, rateLimit, []⟩

/-- Without an encryptor the source exits here. -/
def authenticatedRoute (api : HttpApi σ) (method path : Bytes)
    (function : JsonObject → JsonObject → σ → Bytes × σ)
    (requiredParameters : List (Bytes × JsonType)) (rateLimit : Int) (requiresHuman : Bool) :
    HttpApi σ :=
  api.setRoute (apiKey method path)
    ⟨none, none, some function, requiredParameters, requiresHuman, rateLimit, []⟩

end Registration

section Session

def sessionKey : Bytes :=
  bytes "libjaypea-session"

/-- The session is unknown or more than an hour old. -/
def sessionExpired (services : Services) (api : HttpApi σ) (id : Bytes) : Bool :=
  match KeyedList.get? api.sessions id with
  | none => true
  | some session => services.sessionSeconds - session.created > 3600

def sessionInput (services : Services) (request : JsonObject) : Bytes :=
  services.details ++
    (if request.hasObj (bytes "User-Agent") .string then request.str (bytes "User-Agent") else []) ++
    (if request.hasObj (bytes "Host") .string then request.str (bytes "Host") else [])

/-- The request with the session that it is served under. -/
def withSession (services : Services) (api : HttpApi σ) (request : JsonObject) : JsonObject :=
  let request :=
    if request.hasObj sessionKey .string ∧
        sessionExpired services api (request.str sessionKey) then
      request.eraseMember sessionKey
    else request
  if request.hasObj sessionKey .string then request
  else
    request.setMember sessionKey
      (.ofString (services.sha256Hash (sessionInput services request)))

def openSession (services : Services) (api : HttpApi σ) (id : Bytes) : HttpApi σ :=
  if KeyedList.contains api.sessions id then api
  else { api with sessions := KeyedList.set api.sessions id ⟨[], services.createdSeconds⟩ }

def session (api : HttpApi σ) (id : Bytes) : Session :=
  (KeyedList.get? api.sessions id).getD ⟨[], 0⟩

def setCaptcha (api : HttpApi σ) (id captcha : Bytes) : HttpApi σ :=
  { api with sessions := KeyedList.set api.sessions id { api.session id with captcha := captcha } }

end Session

def defaultRouteKey : Bytes :=
  bytes "GET /404.html"

def namedRouteKey (request : JsonObject) : Bytes :=
  if request.hasObj (bytes "method") .string ∧ request.hasObj (bytes "route") .string then
    request.str (bytes "method") ++ ch ' ' :: request.str (bytes "route")
  else defaultRouteKey

def routeKey (kind : RequestResult) (request : JsonObject) : Bytes :=
  if kind = .httpApi ∨ kind = .api then endWithSlash (namedRouteKey request)
  else namedRouteKey request

def captchaRouteKey : Bytes :=
  bytes "GET /api/captcha/"

def errorBody (message : Bytes) : Bytes :=
  bytes "\x7b\"error\":\"" ++ message ++ bytes "\"\x7d"

/-- Every gate answers a form with its view and any other request with JSON. -/
def refuse (kind : RequestResult) (view : View) (response : HttpResponse) (message : Bytes) :
    Reply :=
  if kind = .httpForm then
    .respondHttp
      { view with parameters := KeyedList.set view.parameters (bytes "status") message } response
  else .respond { response with body := errorBody message }

/-- The captcha that the captcha route shows. -/
def shownCaptcha (services : Services) (session : Session) (request : JsonObject) : Bytes :=
  let captcha :=
    if request.hasObj (bytes "new") .string ∧ request.str (bytes "new") = bytes "true" then []
    else session.captcha
  if captcha = [] then services.getCaptcha else captcha

def showCaptcha (services : Services) (response : HttpResponse) (captcha : Bytes) : Ending :=
  let response := response.setHeader (bytes "Content-Type") (bytes "text/html")
  if services.secretCaptchaUrl = [] then
    .reply (.respond
      { response with body := bytes "<h3>" ++ captcha ++ bytes "</h3>\"\x7d" })
  else
    match TlsClientManager.get services (services.secretCaptchaUrl ++ captcha) with
    | .error thrown => .threw thrown
    | .ok body => .reply (.respond { response with body := body })

/-- `none` when a key is missing. -/
def decodeParameters (services : Services) (request : JsonObject) :
    List (Bytes × JsonType) → List (Bytes × Bytes) → Option (List (Bytes × Bytes))
  | [], parameters => some parameters
  | required :: rest, parameters =>
      (request.getURLDecodedStr services.ii required.1).bind fun value =>
        decodeParameters services request rest (KeyedList.set parameters required.1 value)

def rateLimited (services : Services) (route : Route σ) : Bool :=
  decide (0 < route.minimumMsBetweenCall) && !services.doDebug &&
    match KeyedList.get? route.clientMsAtCall services.details with
    | none => false
    | some last => decide (services.callMilliseconds - last < route.minimumMsBetweenCall)

/-- `client_ms_at_call[details] = now`, for a route with a rate limit. -/
def recordCall (services : Services) (api : HttpApi σ) (key : Bytes) (route : Route σ) :
    HttpApi σ :=
  if 0 < route.minimumMsBetweenCall then
    api.setRoute key
      { route with
        clientMsAtCall :=
          KeyedList.set route.clientMsAtCall services.details services.callMilliseconds }
  else api

/-- The test of one required parameter. -/
def accepts (request : JsonObject) (required : Bytes × JsonType) : Bool :=
  request.hasObj required.1 required.2 &&
    !(request.hasObj required.1 .string && (request.str required.1).isEmpty)

def requiresMessage (required : Bytes × JsonType) : Bytes :=
  bytes "'" ++ required.1 ++ bytes "' requires a " ++ JsonObject.typeString required.2 ++ bytes "."

def checkHuman (api : HttpApi σ) (id : Bytes) (kind : RequestResult) (request : JsonObject)
    (view : View) (response : HttpResponse) (route : Route σ) : HttpApi σ × Except Ending View :=
  if route.requiresHuman then
    if !request.hasObj (bytes "captcha") .string then
      (api, .error (.reply
        (refuse kind view response (bytes "An answer is required for the captcha."))))
    else if request.str (bytes "captcha") ≠ (api.session id).captcha then
      (api.setCaptcha id [], .error (.reply
        (refuse kind view response (bytes "Provided answer to the captcha is incorrect."))))
    else (api.setCaptcha id [], .ok view)
  else (api, .ok view)

/-- The early returns between the route lookup and the handlers. -/
def gates (services : Services) (api : HttpApi σ) (id : Bytes) (kind : RequestResult)
    (request : JsonObject) (view : View) (response : HttpResponse) (key : Bytes)
    (route : Route σ) : HttpApi σ × Except Ending View :=
  match decodeParameters services request route.requiredParameters view.parameters with
  | none => (api, .error (.threw .exceptionPointer))
  | some parameters =>
      let view := { view with parameters := parameters }
      if rateLimited services route then
        (api, .error (.reply
          (refuse kind view response (bytes "This route is rate-limited, wait a bit."))))
      else
        let api := recordCall services api key route
        match route.requiredParameters.find? (!accepts request ·) with
        | some required =>
            (api, .error (.reply (refuse kind view response (requiresMessage required))))
        | none => checkHuman api id kind request view response route

section Handlers

variable (services : Services) (api : HttpApi σ) (state : σ) (id key : Bytes)
  (request : JsonObject) (response : HttpResponse)

/-- The call of a handler as it is recorded. -/
def call (handler : Handler) (token : Option JsonObject) : Call :=
  ⟨handler, key, request, token, (api.session id).captcha⟩

def invokeForm (route : Route σ) : Dispatched σ :=
  match route.formFunction with
  | none => ⟨api, state, [], .reply (.respond { response with body := errorBody (bytes "Bad form route.") })⟩
  | some formFunction =>
      let (view, state) := formFunction request state
      ⟨api, state, [api.call id key request .formFunction none],
        .reply (.respondHttp view response)⟩

def invokeToken (tokenFunction : JsonObject → JsonObject → σ → Bytes × σ) (fuel : Nat) :
    Option (Dispatched σ) :=
  if !request.hasObj (bytes "token") .string then
    some ⟨api, state, [],
      .reply (.respond { response with body := errorBody (bytes "'token' requires a string.") })⟩
  else
    match SymmetricEncryptor.decrypt services.crypto
        (JsonObject.deescape (request.str (bytes "token"))) with
    | none =>
        some ⟨api, state, [], .reply (.respond { response with body := insufficientAccess })⟩
    | some text =>
        (JsonObject.parse (Memory.ofString services.stale text) (.new .notype) 1 fuel).map
          fun parsed =>
            let (body, state) := tokenFunction request parsed.1 state
            ⟨api, state, [api.call id key request .tokenFunction (some parsed.1)],
              .reply (.respond { response with body := body })⟩

def invokeApi (view : View) (route : Route σ) (fuel : Nat) : Option (Dispatched σ) :=
  match route.function, route.tokenFunction with
  | some function, _ =>
      let (body, state) := function request state
      some ⟨api, state, [api.call id key request .function none],
        .reply (.respond { response with body := body })⟩
  | none, some tokenFunction => invokeToken services api state id key request response tokenFunction fuel
  | none, none => some ⟨api, state, [], .reply (.respondHttp view response)⟩

/-- The handlers, for a request that has passed the gates. -/
def invoke (kind : RequestResult) (view : View) (route : Route σ) (fuel : Nat) :
    Option (Dispatched σ) :=
  match kind with
  | .http => some ⟨api, state, [], .reply (.respondHttp view response)⟩
  | .httpForm => some (invokeForm api state id key request response route)
  | .httpApi => invokeApi services api state id key request response view route fuel
  | .api => some ⟨api, state, [], .reply .respond404⟩

end Handlers

/-- The view of a request before any handler; its size is not set yet. -/
def requestedView (request : JsonObject) : View :=
  ⟨if request.hasObj (bytes "route") .string then request.str (bytes "route") else [],
    if request.hasObj (bytes "method") .string then request.str (bytes "method") else [], [], 0⟩

/-- The callback up to its response, once the session is known. -/
def dispatchIn (services : Services) (api : HttpApi σ) (state : σ) (kind : RequestResult)
    (request : JsonObject) (fuel : Nat) : Option (Dispatched σ) :=
  let id := request.str sessionKey
  let response := HttpResponse.default.setHeader sessionKey id
  let view := requestedView request
  if kind = .http then some ⟨api, state, [], .reply (.respondHttp view response)⟩
  else
    let key := routeKey kind request
    if key = captchaRouteKey then
      let captcha := shownCaptcha services (api.session id) request
      some ⟨api.setCaptcha id captcha, state, [], showCaptcha services response captcha⟩
    else
      match KeyedList.get? api.routemap key with
      | none => some ⟨api, state, [], .reply (refuse kind view response (bytes "Bad route."))⟩
      | some route =>
          match gates services api id kind request view response key route with
          | (api, .error ending) => some ⟨api, state, [], ending⟩
          | (api, .ok view) => invoke services api state id key request response kind view route fuel

/-- `on_read` up to its response, on a request that is parsed. -/
def dispatch (services : Services) (api : HttpApi σ) (state : σ) (kind : RequestResult)
    (request : JsonObject) (fuel : Nat) : Option (Dispatched σ) :=
  let request := withSession services api request
  dispatchIn services (openSession services api (request.str sessionKey)) state kind request fuel

/-- What `on_read` leaves behind; the result is `none` when it throws. -/
structure Outcome (σ : Type) where
  result : Option Int
  api : HttpApi σ
  world : World σ
  calls : List Call

/-- The call of a responder. -/
def perform (system : System σ) (api : HttpApi σ) (world : World σ) (fd : Int) :
    Reply → Nat → Option (Answer σ)
  | .respond response, _ =>
      let (result, world) := respond system world fd response
      some ⟨result, api, world⟩
  | .respondHttp view response, fuel => respondHttp system api world fd view response fuel
  | .respond404, _ =>
      let (result, world) := respond404 system world fd
      some ⟨result, api, world⟩

def onRead (services : Services) (system : System σ) (api : HttpApi σ) (world : World σ) (fd : Int)
    (kind : RequestResult) (request : JsonObject) (fuel : Nat) : Option (Outcome σ) :=
  (dispatch services api world.state kind request fuel).bind fun dispatched =>
    let world := { world with state := dispatched.state }
    match dispatched.ending with
    | .threw _ => some ⟨none, dispatched.api, world, dispatched.calls⟩
    | .reply reply =>
        (perform system dispatched.api world fd reply fuel).map fun answer =>
          ⟨some answer.result, answer.api, answer.world, dispatched.calls⟩

end HttpApi

end Libjaypea
