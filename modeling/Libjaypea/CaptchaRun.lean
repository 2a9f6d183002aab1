import Libjaypea.HttpRequestHead
import Libjaypea.RequestRun

/-!
# Captchas over runs

A session holds the captcha that it was last shown until a request for a human
route answers it.  As long as no empty answer is given while the session holds
nothing, each call of a human route uses up a captcha that was issued to its
session before.
-/

namespace Libjaypea

open Fuelled Transitions

namespace HttpApi

variable {σ : Type}

/-- The captcha request draws a new captcha for its session. -/
structure Served.Issues (served : Served σ) (captcha : Bytes) : Prop where
  asks : AsksCaptcha served.arrival.kind served.request
  fresh : served.session.captcha = [] ∨
    (served.request.hasObj (bytes "new") .string = true ∧
      served.request.str (bytes "new") = bytes "true")
  drawn : captcha = served.arrival.services.getCaptcha

/-- The handler of a route that requires a human is called. -/
def Served.CallsHuman (served : Served σ) : Prop :=
  ∃ call ∈ served.outcome.calls, ∃ route,
    KeyedList.get? served.before.routemap call.routeKey = some route ∧ route.requiresHuman = true

instance (served : Served σ) : Decidable served.CallsHuman :=
  decidable_of_iff (served.outcome.calls.any fun call =>
      (KeyedList.get? served.before.routemap call.routeKey).any Route.requiresHuman) <| by
    simp [Served.CallsHuman, Option.any_eq_true]

/-- The captcha was issued to the session, and no call of a human route has
used it since. -/
def Issued (log : List (Served σ)) (id captcha : Bytes) : Prop :=
  ∃ earlier issue later, log = earlier ++ issue :: later ∧ issue.id = id ∧ issue.Issues captcha ∧
    ∀ other ∈ later, other.id = id → ¬ other.CallsHuman

/-- Every call of a human route brings a captcha that was issued to its session
and is unused. -/
def Gatekept (log : List (Served σ)) : Prop :=
  ∀ earlier served later, log = earlier ++ served :: later → served.CallsHuman →
    BringsCaptcha served.request ∧
      Issued earlier served.id (served.request.str (bytes "captcha")) ∧
      served.outcome.calls.length = 1

/-- A request that passes the gates of a human route does not bring an empty
captcha, as it can while its session holds none. -/
def Challenged (server : RequestServer σ) (arrival : Arrival σ) : Prop :=
  let request := withSession arrival.services server.api arrival.request
  ∀ route, Enters server.api arrival.kind request route → route.requiresHuman = true →
    Admitted arrival.services (sessionOf (opened arrival.services server.api arrival.request) request)
      request route →
    request.str (bytes "captcha") ≠ []

theorem Issued.snoc {log : List (Served σ)} {id captcha : Bytes} (issued : Issued log id captcha)
    {served : Served σ} (unused : served.id = id → ¬ served.CallsHuman) :
    Issued (log ++ [served]) id captcha := by
  obtain ⟨earlier, issue, later, rfl, session, issues, kept⟩ := issued
  refine ⟨earlier, issue, later ++ [served], by simp, session, issues, ?_⟩
  intro other member same
  rcases List.mem_append.mp member with before | last
  · exact kept other before same
  · cases List.mem_singleton.mp last
    exact unused same

section Sessions

variable (services : Services) (api : HttpApi σ) (id wanted : Bytes)

theorem captcha_openSession :
    ((openSession services api id).session wanted).captcha = (api.session wanted).captcha := by
  unfold openSession
  split
  · rfl
  · rename_i absent
    have missing : KeyedList.get? api.sessions id = none := by simpa [KeyedList.contains] using absent
    unfold session
    rw [KeyedList.get?_set]
    split
    · rename_i same
      rw [← same, missing]
      rfl
    · rfl

theorem captcha_setCaptcha_of (captcha : Bytes) :
    ((api.setCaptcha id captcha).session wanted).captcha =
      if id = wanted then captcha else (api.session wanted).captcha := by
  unfold setCaptcha session
  rw [KeyedList.get?_set]
  split <;> rfl

theorem captcha_recordCall (key : Bytes) (route : Route σ) :
    ((recordCall services api key route).session wanted).captcha =
      (api.session wanted).captcha := by
  rw [session_recordCall]

/-- The captcha that is shown is the held one unless a new one is drawn. -/
theorem shownCaptcha_cases (session : Session) (request : JsonObject) :
    ((session.captcha = [] ∨ (request.hasObj (bytes "new") .string = true ∧
        request.str (bytes "new") = bytes "true")) ∧
      shownCaptcha services session request = services.getCaptcha) ∨
    shownCaptcha services session request = session.captcha := by
  unfold shownCaptcha
  by_cases renews : request.hasObj (bytes "new") .string = true ∧
      request.str (bytes "new") = bytes "true"
  · exact .inl ⟨.inr renews, by simp [renews]⟩
  · by_cases empty : session.captcha = []
    · exact .inl ⟨.inl empty, by simp [empty]⟩
    · exact .inr (by simp [renews, empty])

end Sessions

/-- What a session holds was issued to it and is unused. -/
def Pending (server : RequestServer σ) : Prop :=
  ∀ id, (server.api.session id).captcha ≠ [] →
    Issued server.log id (server.api.session id).captcha

/-- A request calls one handler at most. -/
theorem Invoked.length_le {services : Services} {api : HttpApi σ} {id key : Bytes}
    {request : JsonObject} {route : Route σ} {kind : RequestResult} {calls : List Call}
    (invoked : Invoked services api id key request route kind calls) : calls.length ≤ 1 := by
  cases invoked <;> simp

section Step

variable {server next : RequestServer σ} {served : Served σ} {dispatched : Dispatched σ}

/-- A human route is called behind its check. -/
theorem passage_of_callsHuman (serves : Serves server served dispatched next)
    (human : served.CallsHuman) :
    BringsCaptcha served.request ∧
      served.request.str (bytes "captcha") = served.session.captcha ∧
      served.outcome.calls.length = 1 ∧
      ∃ route, Enters server.api served.arrival.kind served.request route ∧
        route.requiresHuman = true ∧ Admitted served.arrival.services served.session
          served.request route := by
  obtain ⟨call, called, route, routed, requires⟩ := human
  rw [serves.calls] at called
  have gated : Gated served.arrival.services
      (opened served.arrival.services served.before served.arrival.request) served.arrival.kind
      served.request call := (dispatchIn_cases serves.dispatches).1 call called
  obtain ⟨current, found, -, admitted, -⟩ := gated.admitted
  rw [opened_routemap, routed, Option.some.injEq] at found
  subst found
  obtain ⟨brings, same⟩ := admitted.human requires
  have entered : Enters server.api served.arrival.kind served.request route ∧
      dispatched.calls.length = 1 := by
    have key := gated.key_eq
    cases serves.effect with
    | direct => cases called
    | captcha => cases called
    | stopped => cases called
    | @passed other _ _ enters _ invoked =>
        have entersBefore : Enters served.before served.arrival.kind served.request other :=
          enters_opened.mp enters
        have same : route = other := by
          rw [← Option.some.injEq, ← routed, key, entersBefore.routed]
        rw [same, ← serves.before]
        have atLeast := List.length_pos_of_mem called
        have atMost := invoked.length_le
        exact ⟨entersBefore, by omega⟩
  rw [serves.calls]
  exact ⟨brings, same, entered.2, route, entered.1, requires, admitted⟩

theorem not_callsHuman_of_nil (serves : Serves server served dispatched next)
    (uncalled : dispatched.calls = []) : ¬ served.CallsHuman := by
  rintro ⟨call, called, -⟩
  rw [serves.calls, uncalled] at called
  cases called

/-- A captcha that is neither shown nor used stays as it is. -/
theorem Pending.keeps (pending : Pending server) (serves : Serves server served dispatched next)
    {id captcha : Bytes} (unused : served.id = id → ¬ served.CallsHuman)
    (same : captcha = (server.api.session id).captcha) (held : captcha ≠ []) :
    Issued next.log id captcha := by
  rw [same] at held ⊢
  rw [serves.log]
  exact (pending id held).snoc unused

theorem Pending.step (pending : Pending server) (serves : Serves server served dispatched next) :
    Pending next := by
  intro id
  have recached : next.api.session id = dispatched.api.session id := by
    unfold session
    rw [serves.recached.sessions]
  rw [recached]
  have opens : ((opened served.arrival.services served.before served.arrival.request).session
      id).captcha = (server.api.session id).captcha := by
    rw [← serves.before]
    exact captcha_openSession _ _ _ _
  have records := fun (key : Bytes) (route : Route σ) =>
    captcha_recordCall served.arrival.services
      (opened served.arrival.services served.before served.arrival.request) id key route
  have quiet := not_callsHuman_of_nil serves
  intro held
  cases serves.effect with
  | direct => exact pending.keeps serves (fun _ => quiet rfl) opens held
  | captcha asks =>
      rw [captcha_setCaptcha_of] at held ⊢
      split at held
      · rename_i same
        rw [if_pos same]
        subst same
        rcases shownCaptcha_cases served.arrival.services served.session served.request with
          ⟨fresh, drawn⟩ | shown
        · exact ⟨server.log, served, [], serves.log, rfl, ⟨asks, fresh, drawn⟩, by simp⟩
        · exact pending.keeps serves (fun _ => quiet rfl) (shown.trans opens) held
      · rename_i other
        rw [if_neg other]
        exact pending.keeps serves (fun _ => quiet rfl) opens held
  | stopped enters passage =>
      cases passage with
      | threw => exact pending.keeps serves (fun _ => quiet rfl) opens held
      | limited => exact pending.keeps serves (fun _ => quiet rfl) opens held
      | refused => exact pending.keeps serves (fun _ => quiet rfl) ((records _ _).trans opens) held
      | wrong =>
          rw [captcha_setCaptcha_of] at held ⊢
          split at held
          · exact absurd rfl held
          · rename_i other
            rw [if_neg other]
            exact pending.keeps serves (fun _ => quiet rfl) ((records _ _).trans opens) held
  | @passed route view _ enters passage invoked =>
      generalize passes : (Except.ok view : Except Ending View) = result at passage
      generalize dispatched.api = final at passage held ⊢
      cases passage with
      | right =>
          rw [captcha_setCaptcha_of] at held ⊢
          split at held
          · exact absurd rfl held
          · rename_i other
            rw [if_neg other]
            exact pending.keeps serves (fun same => absurd same other) ((records _ _).trans opens) held
      | automatic _ automatic =>
          refine pending.keeps serves (fun _ human => ?_) ((records _ _).trans opens) held
          obtain ⟨-, -, -, other, entersOther, requires, -⟩ := passage_of_callsHuman serves human
          rw [← serves.before] at entersOther
          cases entersOther.unique (enters_opened.mp enters)
          rw [requires] at automatic
          cases automatic
      | _ => cases passes

theorem pending_of_run {allowed : RequestServer σ → Arrival σ → Prop} {api : HttpApi σ}
    (registered : Registered api) {arrivals : List (Arrival σ)} {last : RequestServer σ}
    (run : Run answerRequest allowed (.start api) arrivals last) : Pending last := by
  refine run.invariant (fun server arrival next pending _ answers => ?_) ?_
  · obtain ⟨served, dispatched, -, serves⟩ := answerRequest_cases answers
    exact pending.step serves
  · intro id held
    refine absurd ?_ held
    change (api.session id).captcha = []
    rw [session, registered.sessions]
    rfl

/-- Over every run whose requests bring no empty answer to a session without a
captcha, each call of a human route uses up an issued captcha. -/
theorem gatekept_of_challenged {api : HttpApi σ} (registered : Registered api)
    {arrivals : List (Arrival σ)} {last : RequestServer σ}
    (run : Run answerRequest Challenged (.start api) arrivals last) : Gatekept last.log := by
  intro earlier served later logged human
  obtain ⟨server, dispatched, next, _, reached, challenged, rfl, serves⟩ :=
    served_of_run run logged
  obtain ⟨brings, same, once, route, enters, requires, admitted⟩ :=
    passage_of_callsHuman serves human
  refine ⟨brings, ?_, once⟩
  have nonempty : served.request.str (bytes "captcha") ≠ [] := by
    have answer := challenged
    unfold Challenged at answer
    rw [← serves.before] at answer enters
    exact answer route enters requires admitted
  have holds : served.session.captcha = (server.api.session served.id).captcha := by
    rw [← serves.before]
    exact captcha_openSession _ _ _ _
  rw [same, holds] at nonempty ⊢
  exact pending_of_run registered reached served.id nonempty

end Step

section Challenged

variable {server : RequestServer σ} {arrival : Arrival σ}

theorem challenged_of_asks (asks : routeKey arrival.kind arrival.request = captchaRouteKey) :
    Challenged server arrival := by
  intro route enters
  have key := enters.key
  rw [routeKey_withSession] at key
  exact absurd asks key

theorem challenged_of_answer (answers : arrival.request.str (bytes "captcha") ≠ []) :
    Challenged server arrival := by
  intro route _ _ _
  have other : sessionKey ≠ bytes "captcha" := by decide
  rw [JsonObject.str_congr (get?_withSession arrival.services server.api arrival.request other)]
  exact answers

end Challenged

namespace Sample

def human : HttpApi Unit :=
  unrouted.route (bytes "GET") (bytes "/human") (fun _ state => ([], state)) [] 0 true

def captchaText : Memory :=
  Memory.ofString (fun _ => 0)
    (bytes "GET /api/captcha HTTP/1.1\r\nContent-Type: application/json\r\n\r\n\x7b\x7d")

def answerText : Memory :=
  Memory.ofString (fun _ => 0) (bytes
    "GET /api/human HTTP/1.1\r\nContent-Type: application/json\r\n\r\n\x7b\"captcha\":\"234567\"\x7d")

def emptyAnswerText : Memory :=
  Memory.ofString (fun _ => 0) (bytes
    "GET /api/human HTTP/1.1\r\nContent-Type: application/json\r\n\r\n\x7b\"captcha\":\"\"\x7d")

end Sample

/-- A captcha is asked for and answered. -/
theorem gatekept_answer :
    ∃ asking answering last,
      Converges (parseHttpRequest Sample.captchaText (fun _ _ => 0) 1 (.new .object))
        (.httpApi, asking) ∧
      Converges (parseHttpRequest Sample.answerText (fun _ _ => 0) 1 (.new .object))
        (.httpApi, answering) ∧
      Run answerRequest Challenged (.start Sample.human)
        [Sample.arrivalAt 0 .httpApi asking, Sample.arrivalAt 1 .httpApi answering] last ∧
      (∃ served ∈ last.log, served.CallsHuman) ∧ Gatekept last.log := by
  have facts : (parseHttpRequest Sample.captchaText (fun _ _ => 0) 1 (.new .object) 80).any
      (fun asking => decide (asking.1 = .httpApi) &&
        decide (routeKey .httpApi asking.2 = captchaRouteKey) &&
        (parseHttpRequest Sample.answerText (fun _ _ => 0) 1 (.new .object) 100).any
          fun answering => decide (answering.1 = .httpApi) &&
            decide (answering.2.str (bytes "captcha") ≠ []) &&
            (exec answerRequest (.start Sample.human)
              [Sample.arrivalAt 0 .httpApi asking.2, Sample.arrivalAt 1 .httpApi answering.2]).any
                fun last => last.log.any fun served => decide served.CallsHuman) = true := by
    decide +kernel
  obtain ⟨⟨askingKind, asking⟩, askingParses, holds⟩ := (Option.any_eq_true _ _).mp facts
  simp only [Bool.and_eq_true, decide_eq_true_eq] at holds
  obtain ⟨⟨rfl, asks⟩, later⟩ := holds
  obtain ⟨⟨answeringKind, answering⟩, answeringParses, holds⟩ := (Option.any_eq_true _ _).mp later
  simp only [Bool.and_eq_true, decide_eq_true_eq] at holds
  obtain ⟨⟨rfl, answers⟩, served⟩ := holds
  obtain ⟨last, executes, called⟩ := (Option.any_eq_true _ _).mp served
  have run : Run answerRequest Challenged (.start Sample.human)
      [Sample.arrivalAt 0 .httpApi asking, Sample.arrivalAt 1 .httpApi answering] last := by
    refine run_of_exec_of_allowed executes ?_
    simp only [List.forall_mem_cons, List.not_mem_nil, false_implies, implies_true, and_true]
    exact ⟨fun _ => challenged_of_asks asks, fun _ => challenged_of_answer answers⟩
  have registered : Registered Sample.human := .route (.new _ _) _ _ _ _ _ _
  exact ⟨asking, answering, last, ⟨80, askingParses⟩, ⟨100, answeringParses⟩, run,
    by simpa using called, gatekept_of_challenged registered run⟩

/-- An empty answer passes when no captcha was ever asked for. -/
theorem exists_not_gatekept :
    ∃ request last,
      Converges (parseHttpRequest Sample.emptyAnswerText (fun _ _ => 0) 1 (.new .object))
        (.httpApi, request) ∧
      Registered Sample.human ∧
      Run answerRequest anything (.start Sample.human) [Sample.arrivalAt 0 .httpApi request] last ∧
      ¬ Gatekept last.log := by
  have facts : (parseHttpRequest Sample.emptyAnswerText (fun _ _ => 0) 1 (.new .object) 100).any
      (fun parsed => decide (parsed.1 = .httpApi) &&
        (exec answerRequest (.start Sample.human) [Sample.arrivalAt 0 .httpApi parsed.2]).any
          fun last => decide (last.log.length = 1) &&
            last.log.all fun served => decide served.CallsHuman) = true := by
    decide +kernel
  obtain ⟨⟨kind, request⟩, parses, holds⟩ := (Option.any_eq_true _ _).mp facts
  rw [Bool.and_eq_true, decide_eq_true_eq] at holds
  obtain ⟨rfl, executed⟩ := holds
  obtain ⟨last, executes, called⟩ := (Option.any_eq_true _ _).mp executed
  rw [Bool.and_eq_true, decide_eq_true_eq] at called
  obtain ⟨served, logged⟩ := List.length_eq_one_iff.mp called.1
  refine ⟨request, last, ⟨100, parses⟩, .route (.new _ _) _ _ _ _ _ _, run_of_exec executes, ?_⟩
  intro gatekept
  have human : served.CallsHuman := by simpa [logged] using called.2
  obtain ⟨-, ⟨earlier, issue, later, nothing, -⟩, -⟩ := gatekept [] served [] logged human
  simp at nothing

end HttpApi

end Libjaypea
