import Libjaypea.RequestRun
import Libjaypea.Spacing
import Mathlib.Algebra.Order.Group.Int

/-!
# Rate limits over runs

What a route records of an address is the last call that a limiter admits,
among the requests for that route and address alone.  The spacing of the
handler's calls and the reasons for a refusal follow from it.
-/

namespace Libjaypea

open Fuelled Transitions Spacing

namespace HttpApi

variable {σ : Type}

/-- The request is for this route and from this address. -/
def Arrival.concerns (key address : Bytes) (arrival : Arrival σ) : Bool :=
  decide (arrival.kind ≠ .http) && decide (routeKey arrival.kind arrival.request = key) &&
    decide (arrival.services.details = address)

/-- The times of the requests for a route from an address. -/
def times (key address : Bytes) (log : List (Served σ)) : List Int :=
  (log.filter (·.arrival.concerns key address)).map (·.arrival.services.callMilliseconds)

/-- The production build, with a clock that does not go back. -/
def MillisecondsAdvance (server : RequestServer σ) (arrival : Arrival σ) : Prop :=
  arrival.services.doDebug = false ∧
    ∀ served ∈ server.log,
      served.arrival.services.callMilliseconds ≤ arrival.services.callMilliseconds

/-- The request is answered that its route is rate-limited. -/
def Served.Limited (served : Served σ) : Prop :=
  ∃ dispatched view response,
    dispatch served.arrival.services served.before served.arrival.world.state served.arrival.kind
      served.arrival.request served.arrival.fuel = some dispatched ∧
    dispatched.calls = [] ∧ ¬ AsksCaptcha served.arrival.kind served.request ∧
    dispatched.ending = .reply (refuse served.arrival.kind view response rateLimitedMessage)

/-- The handler of the route is called, for a request from the address. -/
def Served.Invokes (key address : Bytes) (served : Served σ) : Prop :=
  served.arrival.services.details = address ∧ ∃ call ∈ served.outcome.calls, call.routeKey = key

section Step

theorem times_snoc (key address : Bytes) (log : List (Served σ)) (served : Served σ) :
    times key address (log ++ [served]) =
      if served.arrival.concerns key address then
        times key address log ++ [served.arrival.services.callMilliseconds]
      else times key address log := by
  unfold times
  split_ifs with concerned <;> simp [concerned]

/-- The record of a route after one of its calls. -/
theorem recordCall_routemap {services : Services} {api other : HttpApi σ} {key : Bytes}
    {route : Route σ} (same : other.routemap = api.routemap) :
    (recordCall services other key route).routemap = (recordCall services api key route).routemap := by
  unfold recordCall
  split
  · simp [setRoute, same]
  · exact same

variable {server next : RequestServer σ} {served : Served σ} {dispatched : Dispatched σ}

/-- The gate of the rate limit, for a request that goes through the gates. -/
inductive Gate (served : Served σ) (dispatched : Dispatched σ) (next : RequestServer σ) :
    Route σ → Prop
  | threw {route : Route σ} {required : Bytes × JsonType}
      (member : required ∈ route.requiredParameters) (lacks : Lacks served.request required)
      (stops : next.running = false) (kept : next.api.routemap = served.before.routemap)
      (uncalled : dispatched.calls = [])
      (spared : Spared served.arrival.kind dispatched.ending) : Gate served dispatched next route
  | limited {route : Route σ}
      (complete : ∀ required ∈ route.requiredParameters, ¬ Lacks served.request required)
      (limited : rateLimited served.arrival.services route = true)
      (kept : next.api.routemap = served.before.routemap) (uncalled : dispatched.calls = [])
      (answered : ∃ view response,
        dispatched.ending = .reply (refuse served.arrival.kind view response rateLimitedMessage)) :
      Gate served dispatched next route
  | due {route : Route σ} (due : rateLimited served.arrival.services route = false)
      (recorded : next.api.routemap = (recordCall served.arrival.services served.before
        (routeKey served.arrival.kind served.arrival.request) route).routemap)
      (spared : dispatched.calls = [] → Spared served.arrival.kind dispatched.ending) :
      Gate served dispatched next route

theorem gate_of_serves (serves : Serves server served dispatched next) :
    (∃ route, Enters served.before served.arrival.kind served.request route ∧
        Gate served dispatched next route) ∨
      ((∀ route, ¬ Enters served.before served.arrival.kind served.request route) ∧
        next.api.routemap = served.before.routemap ∧ dispatched.calls = [] ∧
        (AsksCaptcha served.arrival.kind served.request ∨
          Spared served.arrival.kind dispatched.ending)) := by
  have unchanged := opened_routemap served.arrival.services served.before served.arrival.request
  have after := serves.recached.routemap
  have replies := serves.replies
  have key : routeKey served.arrival.kind served.request = _ :=
    routeKey_withSession served.arrival.services served.before served.arrival.kind
      served.arrival.request
  have record : ∀ route, (recordCall served.arrival.services
      (opened served.arrival.services served.before served.arrival.request)
      (routeKey served.arrival.kind served.request) route).routemap =
        (recordCall served.arrival.services served.before
          (routeKey served.arrival.kind served.arrival.request) route).routemap := by
    intro route
    rw [key]
    exact recordCall_routemap unchanged
  cases serves.effect with
  | direct away silent spared =>
      exact .inr ⟨fun route enters => away route (enters_opened.mpr enters), after.trans unchanged,
        rfl, .inr spared⟩
  | captcha asks =>
      exact .inr ⟨fun route enters => enters.key asks.2, after.trans unchanged, rfl, .inl asks⟩
  | @stopped route _ _ ending enters passage =>
      refine .inl ⟨route, enters_opened.mp enters, ?_⟩
      cases passage with
      | threw member lacks =>
          refine .threw member lacks ?_ (after.trans unchanged) rfl
            fun view response same => by cases same
          by_contra runs
          obtain ⟨reply, same⟩ := replies (by simpa using runs)
          cases same
      | limited complete limited => exact .limited complete limited (after.trans unchanged) rfl ⟨_, _, rfl⟩
      | refused due spared => exact .due due (after.trans (record route)) fun _ => spared
      | wrong due spared => exact .due due (after.trans (record route)) fun _ => spared
  | @passed route view _ enters passage invoked spared =>
      refine .inl ⟨route, enters_opened.mp enters, ?_⟩
      generalize passes : (Except.ok view : Except Ending View) = result at passage
      generalize dispatched.api = final at passage after
      cases passage with
      | right due => exact .due due (after.trans (record route)) spared
      | automatic due => exact .due due (after.trans (record route)) spared
      | _ => cases passes

theorem limited_iff {route : Route σ} (serves : Serves server served dispatched next)
    (enters : Enters served.before served.arrival.kind served.request route) :
    served.Limited ↔ (∀ required ∈ route.requiredParameters, ¬ Lacks served.request required) ∧
      rateLimited served.arrival.services route = true := by
  obtain ⟨entered, again, gate⟩ | ⟨away, -⟩ := gate_of_serves serves
  · cases enters.unique again
    constructor
    · rintro ⟨other, view, response, dispatches, uncalled, -, answered⟩
      cases dispatches.symm.trans serves.dispatches
      cases gate with
      | threw _ _ _ _ _ spared => exact absurd answered (spared view response)
      | limited complete limited => exact ⟨complete, limited⟩
      | due _ _ spared => exact absurd answered (spared uncalled view response)
    · rintro ⟨complete, limited⟩
      cases gate with
      | threw member lacks => exact absurd lacks (complete _ member)
      | limited _ _ _ uncalled answered =>
          obtain ⟨view, response, ends⟩ := answered
          exact ⟨dispatched, view, response, serves.dispatches, uncalled,
            fun asks => enters.key asks.2, ends⟩
      | due due =>
          rw [due] at limited
          cases limited
  · exact absurd enters (away route)

theorem enters_of_limited (serves : Serves server served dispatched next)
    (limited : served.Limited) :
    ∃ route, Enters served.before served.arrival.kind served.request route := by
  obtain ⟨other, view, response, dispatches, -, silent, answered⟩ := limited
  cases dispatches.symm.trans serves.dispatches
  rcases gate_of_serves serves with ⟨route, enters, -⟩ | ⟨-, -, -, asks | spared⟩
  · exact ⟨route, enters⟩
  · exact absurd asks silent
  · exact absurd answered (spared view response)

/-- Handlers are called behind the gate of the rate limit. -/
theorem due_of_calls (serves : Serves server served dispatched next) {call : Call}
    (called : call ∈ served.outcome.calls) :
    ∃ route, Enters served.before served.arrival.kind served.request route ∧
      call.routeKey = routeKey served.arrival.kind served.request ∧
      rateLimited served.arrival.services route = false := by
  rw [serves.calls] at called
  have key : call.routeKey = routeKey served.arrival.kind served.request :=
    ((dispatchIn_cases serves.dispatches).1 call called).key_eq
  rcases gate_of_serves serves with ⟨route, enters, gate⟩ | ⟨-, -, uncalled, -⟩
  · cases gate with
    | threw _ _ _ _ uncalled => simp [uncalled] at called
    | limited _ _ _ uncalled => simp [uncalled] at called
    | due due => exact ⟨route, enters, key, due⟩
  · simp [uncalled] at called

end Step

section Invariant

/-- A route without the record of its calls. -/
def Route.settings (route : Route σ) : Route σ :=
  { route with clientMsAtCall := [] }

/-- The routes are those of the start, up to the records of their calls. -/
def SameSettings (start : HttpApi σ) (server : RequestServer σ) : Prop :=
  ∀ key, (KeyedList.get? server.api.routemap key).map Route.settings =
    (KeyedList.get? start.routemap key).map Route.settings

/-- A route with a limit holds the last admitted call of every address. -/
def Recorded (server : RequestServer σ) : Prop :=
  server.running = true → ∀ key route, key ≠ captchaRouteKey →
    KeyedList.get? server.api.routemap key = some route → 0 < route.minimumMsBetweenCall →
    ∀ address, KeyedList.get? route.clientMsAtCall address =
      lastCall route.minimumMsBetweenCall (times key address server.log)

theorem rateLimited_eq {services : Services} {route : Route σ} (production : services.doDebug = false)
    (positive : 0 < route.minimumMsBetweenCall) :
    rateLimited services route =
      !due route.minimumMsBetweenCall (KeyedList.get? route.clientMsAtCall services.details)
        services.callMilliseconds := by
  unfold rateLimited due
  cases KeyedList.get? route.clientMsAtCall services.details <;> simp [production, positive]

theorem get?_recordCall {services : Services} {api : HttpApi σ} {key : Bytes} {route : Route σ}
    (positive : 0 < route.minimumMsBetweenCall) (wanted : Bytes) :
    KeyedList.get? (recordCall services api key route).routemap wanted =
      if key = wanted then
        some { route with
          clientMsAtCall :=
            KeyedList.set route.clientMsAtCall services.details services.callMilliseconds }
      else KeyedList.get? api.routemap wanted := by
  rw [recordCall, if_pos positive, setRoute, KeyedList.get?_set]

variable {server next : RequestServer σ} {served : Served σ} {dispatched : Dispatched σ}

theorem SameSettings.step {start : HttpApi σ} (same : SameSettings start server)
    (serves : Serves server served dispatched next) : SameSettings start next := by
  intro key
  rw [← same key, ← serves.before]
  rcases gate_of_serves serves with ⟨route, enters, gate⟩ | ⟨-, kept, -⟩
  · cases gate with
    | threw _ _ _ kept => rw [kept]
    | limited _ _ kept => rw [kept]
    | due _ recorded =>
        rw [recorded]
        by_cases positive : 0 < route.minimumMsBetweenCall
        · rw [get?_recordCall positive]
          split
          · rename_i here
            have routed := enters.routed
            unfold Served.request at routed
            rw [routeKey_withSession, here] at routed
            rw [routed]
            rfl
          · rfl
        · rw [recordCall, if_neg positive]
  · rw [kept]

/-- What the request is for, by its key and address. -/
theorem concerns_iff {key address : Bytes} :
    served.arrival.concerns key address = true ↔
      served.arrival.kind ≠ .http ∧ routeKey served.arrival.kind served.request = key ∧
        served.arrival.services.details = address := by
  have same : routeKey served.arrival.kind served.request = _ :=
    routeKey_withSession served.arrival.services served.before served.arrival.kind
      served.arrival.request
  simp [Arrival.concerns, same, and_assoc]

theorem Recorded.step (recorded : Recorded server)
    (production : served.arrival.services.doDebug = false)
    (serves : Serves server served dispatched next) : Recorded next := by
  intro running key route reserved routed positive address
  have before := recorded serves.running key
  rw [← serves.before] at before
  rw [serves.log, times_snoc]
  rcases gate_of_serves serves with ⟨entered, enters, gate⟩ | ⟨away, kept, -⟩
  · have key_eq : routeKey served.arrival.kind served.request = _ :=
      routeKey_withSession served.arrival.services served.before served.arrival.kind
        served.arrival.request
    have here := enters.routed
    cases gate with
    | threw _ _ stops => simp [stops] at running
    | limited _ limited kept =>
        rw [kept] at routed
        rw [before route reserved routed positive address]
        split
        · rename_i concerned
          obtain ⟨-, rfl, rfl⟩ := concerns_iff.mp concerned
          cases here.symm.trans routed
          rw [rateLimited_eq production positive, Bool.not_eq_true',
            before _ reserved routed positive] at limited
          rw [lastCall_snoc, limited]
          rfl
        · rfl
    | due admitted after =>
        rw [← key_eq] at after
        by_cases limits : 0 < entered.minimumMsBetweenCall
        · rw [after, get?_recordCall limits] at routed
          split at routed
          · rename_i same
            subst same
            cases routed
            have last := before entered enters.key here limits
            rw [rateLimited_eq production limits, Bool.not_eq_false', last] at admitted
            rw [KeyedList.get?_set, last]
            split
            · rename_i address_eq
              subst address_eq
              rw [if_pos (concerns_iff.mpr ⟨enters.gated, rfl, rfl⟩), lastCall_snoc, if_pos admitted]
            · rename_i elsewhere
              rw [if_neg fun concerned => elsewhere (concerns_iff.mp concerned).2.2]
          · rename_i elsewhere
            rw [if_neg fun concerned => elsewhere (concerns_iff.mp concerned).2.1,
              before route reserved routed positive address]
        · rw [after, recordCall, if_neg limits] at routed
          rw [if_neg, before route reserved routed positive address]
          intro concerned
          obtain ⟨-, rfl, -⟩ := concerns_iff.mp concerned
          cases here.symm.trans routed
          exact limits positive
  · rw [kept] at routed
    rw [if_neg, before route reserved routed positive address]
    intro concerned
    obtain ⟨gated, here, -⟩ := concerns_iff.mp concerned
    exact away route ⟨gated, here ▸ reserved, here ▸ routed⟩

/-- What is kept over a run from the start. -/
structure LimitsKept (start : HttpApi σ) (server : RequestServer σ) : Prop where
  settings : SameSettings start server
  recorded : Recorded server

theorem limitsKept_start {api : HttpApi σ} (registered : Registered api) : LimitsKept api (.start api) := by
  refine ⟨fun key => rfl, ?_⟩
  intro _ key route _ routed _ address
  rw [registered.uncalled key route routed]
  rfl

theorem limitsKept_of_run {api : HttpApi σ} {arrivals : List (Arrival σ)} {last : RequestServer σ}
    (registered : Registered api)
    (run : Run answerRequest MillisecondsAdvance (.start api) arrivals last) : LimitsKept api last := by
  refine run.invariant ?_ (limitsKept_start registered)
  rintro server arrival next kept advances answers
  obtain ⟨served, dispatched, rfl, serves⟩ := answerRequest_cases answers
  exact ⟨kept.settings.step serves, kept.recorded.step advances.1 serves⟩

/-- The parameters that the handler requires are there. -/
def Complete (route : Route σ) (arrival : Arrival σ) : Prop :=
  ∀ required ∈ route.requiredParameters, required.1 ≠ sessionKey →
    ¬ Lacks arrival.request required

theorem lacks_request {required : Bytes × JsonType} :
    Lacks served.request required ↔
      required.1 ≠ sessionKey ∧ Lacks served.arrival.request required := by
  unfold Lacks
  by_cases session : required.1 = sessionKey
  · simp only [session, ne_eq, not_true, false_and, iff_false]
    exact get?_withSession_sessionKey _ _ _
  · have same := get?_withSession served.arrival.services served.before served.arrival.request
      (Ne.symm session)
    simp only [Served.request, same, ne_eq, session, not_false_iff, true_and]

/-- A refusal depends on the earlier requests for the same route and address
alone. -/
theorem limited_iff_times {start : HttpApi σ} (kept : LimitsKept start server)
    (production : served.arrival.services.doDebug = false)
    (serves : Serves server served dispatched next) {key address : Bytes} {route : Route σ}
    (routed : KeyedList.get? start.routemap key = some route)
    (positive : 0 < route.minimumMsBetweenCall) (reserved : key ≠ captchaRouteKey)
    (concerned : served.arrival.concerns key address = true) :
    served.Limited ↔ Complete route served.arrival ∧
      due route.minimumMsBetweenCall
        (lastCall route.minimumMsBetweenCall (times key address server.log))
        served.arrival.services.callMilliseconds = false := by
  obtain ⟨gated, rfl, rfl⟩ := concerns_iff.mp concerned
  have settings := kept.settings (routeKey served.arrival.kind served.request)
  rw [routed, Option.map_some, Option.map_eq_some_iff] at settings
  obtain ⟨current, found, same⟩ := settings
  have minimum : current.minimumMsBetweenCall = route.minimumMsBetweenCall :=
    (congrArg Route.minimumMsBetweenCall same :)
  have required : current.requiredParameters = route.requiredParameters :=
    (congrArg Route.requiredParameters same :)
  have enters : Enters served.before served.arrival.kind served.request current :=
    ⟨gated, reserved, serves.before ▸ found⟩
  have stored := kept.recorded serves.running _ current reserved found (minimum ▸ positive)
    served.arrival.services.details
  rw [limited_iff serves enters, rateLimited_eq production (minimum ▸ positive), stored, required,
    minimum, Bool.not_eq_true']
  simp only [Complete, lacks_request, not_and]

end Invariant

/-- The calls of a handler keep their distance, and a request is refused only
shortly after one that was not. -/
structure Paced (key address : Bytes) (minimum : Int) (log : List (Served σ)) : Prop where
  spaced : ∀ earlier first between second later,
    log = earlier ++ first :: (between ++ second :: later) →
    first.Invokes key address → second.Invokes key address →
    minimum ≤ second.arrival.services.callMilliseconds - first.arrival.services.callMilliseconds
  reason : ∀ earlier served later, log = earlier ++ served :: later →
    served.arrival.concerns key address = true → served.Limited →
    ∃ other ∈ earlier, other.arrival.concerns key address = true ∧ ¬ other.Limited ∧
      served.arrival.services.callMilliseconds - other.arrival.services.callMilliseconds < minimum

/-- The same request, after the same times of requests for its route and
address, is refused in both logs or in neither. -/
def Unaffected (key address : Bytes) (log others : List (Served σ)) : Prop :=
  ∀ earlier served later before other after, log = earlier ++ served :: later →
    others = before ++ other :: after → served.arrival = other.arrival →
    served.arrival.concerns key address = true →
    times key address earlier = times key address before → (served.Limited ↔ other.Limited)

section Main

variable {start : HttpApi σ} {key address : Bytes} {route : Route σ}

/-- A handler's call is an admitted one. -/
theorem due_of_invokes {server next : RequestServer σ} {served : Served σ}
    {dispatched : Dispatched σ} (kept : LimitsKept start server)
    (production : served.arrival.services.doDebug = false)
    (serves : Serves server served dispatched next)
    (routed : KeyedList.get? start.routemap key = some route)
    (positive : 0 < route.minimumMsBetweenCall) (invokes : served.Invokes key address) :
    served.arrival.concerns key address = true ∧
      due route.minimumMsBetweenCall
        (lastCall route.minimumMsBetweenCall (times key address server.log))
        served.arrival.services.callMilliseconds = true := by
  obtain ⟨rfl, call, called, rfl⟩ := invokes
  obtain ⟨current, enters, named, admitted⟩ := due_of_calls serves called
  have concerned : served.arrival.concerns call.routeKey served.arrival.services.details = true :=
    concerns_iff.mpr ⟨enters.gated, named.symm, rfl⟩
  refine ⟨concerned, ?_⟩
  have settings := kept.settings call.routeKey
  rw [routed, named, ← serves.before, enters.routed] at settings
  have same : Route.settings current = Route.settings route := Option.some.inj settings
  have minimum : current.minimumMsBetweenCall = route.minimumMsBetweenCall :=
    (congrArg Route.minimumMsBetweenCall same :)
  have found := enters.routed
  rw [serves.before] at found
  have stored := kept.recorded serves.running _ current enters.key found (minimum ▸ positive)
    served.arrival.services.details
  rw [rateLimited_eq production (minimum ▸ positive), stored, minimum, Bool.not_eq_false'] at admitted
  rw [named]
  exact admitted

theorem times_pairwise (key address : Bytes) {arrivals : List (Arrival σ)} {last : RequestServer σ}
    (run : Run answerRequest MillisecondsAdvance (.start start) arrivals last) :
    (times key address last.log).Pairwise (· ≤ ·) := by
  have ordered : last.log.Pairwise fun first second =>
      first.arrival.services.callMilliseconds ≤ second.arrival.services.callMilliseconds := by
    refine run.log_pairwise (fun server arrival next advances answers => ?_) List.Pairwise.nil
    obtain ⟨served, appended, rfl⟩ := answerRequest_logs server arrival next answers
    exact ⟨served, appended, advances.2⟩
  exact List.pairwise_map.mpr (ordered.filter _)

theorem times_append (earlier later : List (Served σ)) :
    times key address (earlier ++ later) = times key address earlier ++ times key address later := by
  simp [times]

theorem times_cons {served : Served σ} (later : List (Served σ))
    (concerned : served.arrival.concerns key address = true) :
    times key address (served :: later) =
      served.arrival.services.callMilliseconds :: times key address later := by
  simp [times, concerned]

/-- A time among those of the requests is that of a request. -/
theorem exists_of_times {log : List (Served σ)} {first rest : List Int} {time : Int}
    (split : times key address log = first ++ time :: rest) :
    ∃ earlier other later, log = earlier ++ other :: later ∧
      other.arrival.concerns key address = true ∧
      other.arrival.services.callMilliseconds = time ∧ times key address earlier = first := by
  obtain ⟨firsts, others, filtered, firstEq, othersEq⟩ := List.map_eq_append_iff.mp split
  obtain ⟨other, rests, rfl, timeEq, -⟩ := List.map_eq_cons_iff.mp othersEq
  obtain ⟨before, after, rfl, firstsEq, afterEq⟩ := List.filter_eq_append_iff.mp filtered
  obtain ⟨between, later, rfl, skipped, concerned, -⟩ := List.filter_eq_cons_iff.mp afterEq
  refine ⟨before ++ between, other, later, by simp, concerned, timeEq, ?_⟩
  have none : times key address between = [] := by simpa [times] using skipped
  rw [times_append, none, List.append_nil, ← firstEq, ← firstsEq]
  rfl

variable {arrivals : List (Arrival σ)} {last : RequestServer σ}

theorem paced_of_run (registered : Registered start)
    (routed : KeyedList.get? start.routemap key = some route)
    (positive : 0 < route.minimumMsBetweenCall) (address : Bytes)
    (run : Run answerRequest MillisecondsAdvance (.start start) arrivals last) :
    Paced key address route.minimumMsBetweenCall last.log := by
  constructor
  · intro earlier first between second later logged firstInvokes secondInvokes
    obtain ⟨server, _, _, _, reached, advances, before, serves⟩ := served_of_run run logged
    have kept := limitsKept_of_run registered reached
    obtain ⟨firstConcerned, firstDue⟩ :=
      due_of_invokes kept advances.1 serves routed positive firstInvokes
    rw [before] at firstDue
    rw [← List.cons_append, ← List.append_assoc] at logged
    obtain ⟨server, _, _, _, reached, advances, before, serves⟩ := served_of_run run logged
    have kept := limitsKept_of_run registered reached
    obtain ⟨secondConcerned, secondDue⟩ :=
      due_of_invokes kept advances.1 serves routed positive secondInvokes
    have ordered := times_pairwise key address reached
    rw [before, times_append, times_cons _ firstConcerned] at secondDue ordered
    exact spaced (List.pairwise_append.mp ordered).2.1 firstDue secondDue
  · intro earlier served later logged concerned limited
    obtain ⟨server, _, _, _, reached, advances, before, serves⟩ := served_of_run run logged
    have kept := limitsKept_of_run registered reached
    obtain ⟨current, enters⟩ := enters_of_limited serves limited
    have reserved : key ≠ captchaRouteKey := (concerns_iff.mp concerned).2.1 ▸ enters.key
    rw [limited_iff_times kept advances.1 serves routed positive reserved concerned, before,
      due_eq_false_iff] at limited
    obtain ⟨-, time, called, recent⟩ := limited
    obtain ⟨first, rest, split, admitted⟩ := admitted_of_lastCall called
    obtain ⟨sooner, other, since, rfl, otherConcerned, rfl, firstEq⟩ := exists_of_times split
    refine ⟨other, by simp, otherConcerned, fun otherLimited => ?_, recent⟩
    rw [List.append_assoc, List.cons_append] at logged
    obtain ⟨server, _, _, _, reached, advances, before, serves⟩ := served_of_run run logged
    have kept := limitsKept_of_run registered reached
    rw [limited_iff_times kept advances.1 serves routed positive reserved otherConcerned, before,
      firstEq, admitted] at otherLimited
    cases otherLimited.2

theorem unaffected_of_runs (registered : Registered start)
    (routed : KeyedList.get? start.routemap key = some route)
    (positive : 0 < route.minimumMsBetweenCall) (address : Bytes)
    (run : Run answerRequest MillisecondsAdvance (.start start) arrivals last)
    {others : List (Arrival σ)} {otherLast : RequestServer σ}
    (otherRun : Run answerRequest MillisecondsAdvance (.start start) others otherLast) :
    Unaffected key address last.log otherLast.log := by
  intro earlier served later before other after logged otherLogged same concerned sameTimes
  obtain ⟨server, _, _, _, reached, advances, log, serves⟩ := served_of_run run logged
  obtain ⟨otherServer, _, _, _, otherReached, otherAdvances, otherLog, otherServes⟩ :=
    served_of_run otherRun otherLogged
  by_cases reserved : key = captchaRouteKey
  · -- The captcha route comes before the routes.
    have never : ∀ {server next : RequestServer σ} {served : Served σ} {dispatched},
        Serves server served dispatched next → served.arrival.concerns key address = true →
        ¬ served.Limited := by
      intro server next served dispatched serves concerned limited
      obtain ⟨current, enters⟩ := enters_of_limited serves limited
      exact enters.key ((concerns_iff.mp concerned).2.1.trans reserved)
    exact iff_of_false (never serves concerned) (never otherServes (same ▸ concerned))
  · rw [limited_iff_times (limitsKept_of_run registered reached) advances.1 serves routed positive
        reserved concerned,
      limited_iff_times (limitsKept_of_run registered otherReached) otherAdvances.1 otherServes routed
        positive reserved (same ▸ concerned), log, otherLog, same, sameTimes]

/-- Over every run, the calls of a limited route keep their distance for every
address, and refusals are due to the requests for that route and address. -/
theorem rate_limits (registered : Registered start)
    (routed : KeyedList.get? start.routemap key = some route)
    (positive : 0 < route.minimumMsBetweenCall) (address : Bytes)
    (run : Run answerRequest MillisecondsAdvance (.start start) arrivals last) :
    Paced key address route.minimumMsBetweenCall last.log ∧
      ∀ others otherLast, Run answerRequest MillisecondsAdvance (.start start) others otherLast →
        Unaffected key address last.log otherLast.log :=
  ⟨paced_of_run registered routed positive address run, fun _ _ otherRun =>
    unaffected_of_runs registered routed positive address run otherRun⟩

end Main

namespace Sample

def slow : HttpApi Unit :=
  unrouted.route (bytes "GET") (bytes "/slow") (fun _ state => ([], state)) [] 1500 false

def slowText : Memory :=
  Memory.ofString (fun _ => 0)
    (bytes "GET /api/slow HTTP/1.1\r\nContent-Type: application/json\r\n\r\n\x7b\x7d")

def slowArrivals (request : JsonObject) : List (Arrival Unit) :=
  [arrivalAt 0 .httpApi request, arrivalAt 1 .httpApi request, arrivalAt 2 .httpApi request]

end Sample

/-- Of three calls a second apart, the one in the middle is refused. -/
theorem rate_limits_slow :
    ∃ request last,
      Converges (parseHttpRequest Sample.slowText (fun _ _ => 0) 1 (.new .object))
        (.httpApi, request) ∧
      Run answerRequest MillisecondsAdvance (.start Sample.slow) (Sample.slowArrivals request) last ∧
      last.log.map (fun served => served.outcome.calls.length) = [1, 0, 1] ∧
      Paced (bytes "GET /api/slow/") (bytes "127.0.0.1") 1500 last.log ∧
      ∀ others otherLast,
        Run answerRequest MillisecondsAdvance (.start Sample.slow) others otherLast →
          Unaffected (bytes "GET /api/slow/") (bytes "127.0.0.1") last.log otherLast.log := by
  have facts : (parseHttpRequest Sample.slowText (fun _ _ => 0) 1 (.new .object) 80).any
      (fun parsed => decide (parsed.1 = .httpApi) &&
        (exec answerRequest (.start Sample.slow) (Sample.slowArrivals parsed.2)).any fun last =>
          decide (last.log.map (fun served => served.outcome.calls.length) = [1, 0, 1])) = true := by
    decide +kernel
  obtain ⟨⟨kind, request⟩, parses, holds⟩ := (Option.any_eq_true _ _).mp facts
  rw [Bool.and_eq_true, decide_eq_true_eq] at holds
  obtain ⟨rfl, served⟩ := holds
  obtain ⟨last, executes, calls⟩ := (Option.any_eq_true _ _).mp served
  have run : Run answerRequest MillisecondsAdvance (.start Sample.slow)
      (Sample.slowArrivals request) last := by
    apply run_of_exec_of_pairwise (fun arrival => arrival.services.doDebug = false)
      (fun earlier later =>
        earlier.services.callMilliseconds ≤ later.services.callMilliseconds)
      answerRequest_logs executes
    · simp [Sample.slowArrivals, Sample.arrivalAt, Sample.services]
    · simp [Sample.slowArrivals, Sample.arrivalAt]
    · simp [RequestServer.start]
  have routed : KeyedList.get? Sample.slow.routemap (bytes "GET /api/slow/") =
      some ⟨some fun _ state => ([], state), none, none, [], false, 1500, []⟩ := rfl
  have paced := rate_limits (.route (.new _ _) _ _ _ _ _ _) routed (by decide)
    (bytes "127.0.0.1") run
  exact ⟨request, last, ⟨80, parses⟩, run, of_decide_eq_true calls, paced⟩

end HttpApi

end Libjaypea
