import Libjaypea.HttpRequestHead
import Libjaypea.RequestRun

/-!
# The age of sessions

A session named by a header is used only while it is at most an hour old.  The
id of a request without such a header is computed from its address and headers,
and may be that of an old session, which nothing ever removes.
-/

namespace Libjaypea

open Fuelled Transitions

namespace HttpApi

variable {σ : Type}

section Selection

variable (services : Services) (api : HttpApi σ) (request : JsonObject)

/-- The header names a session that is known and not expired. -/
def NamesSession : Prop :=
  request.hasObj sessionKey .string = true ∧
    sessionExpired services api (request.str sessionKey) = false

/-- The id of a request that names no session. -/
def computedId : Bytes :=
  services.sha256Hash (sessionInput services request)

theorem sessionInput_eraseMember :
    sessionInput services (request.eraseMember sessionKey) = sessionInput services request := by
  have erased : ∀ key, sessionKey ≠ key →
      KeyedList.get? (request.eraseMember sessionKey).objectValues key =
        KeyedList.get? request.objectValues key := by
    intro key other
    simp [JsonObject.eraseMember, KeyedList.get?_erase, other]
  have agent := erased (bytes "User-Agent") (by decide)
  have host := erased (bytes "Host") (by decide)
  simp only [sessionInput, JsonObject.hasObj_congr agent, JsonObject.hasObj_congr host,
    JsonObject.str_congr agent, JsonObject.str_congr host]

theorem str_setMember (key value : Bytes) :
    (request.setMember key (.ofString value)).str key = value := by
  simp [JsonObject.setMember, JsonObject.str, JsonObject.getStr, KeyedList.get?_set_self,
    JsonObject.ofString]

/-- The session of a request is the one that it names, or the computed one. -/
theorem withSession_id :
    (NamesSession services api request ∧
        (withSession services api request).str sessionKey = request.str sessionKey) ∨
      (¬ NamesSession services api request ∧
        (withSession services api request).str sessionKey = computedId services request) := by
  unfold NamesSession withSession
  by_cases present : request.hasObj sessionKey .string = true
  · cases expired : sessionExpired services api (request.str sessionKey) with
    | false =>
        left
        simp [present]
    | true =>
        right
        have erased : (request.eraseMember sessionKey).hasObj sessionKey .string = false := by
          simp [JsonObject.eraseMember, JsonObject.hasObj, KeyedList.get?_erase]
        simp [present, erased, str_setMember, sessionInput_eraseMember, computedId]
  · right
    simp [present, str_setMember, computedId]

end Selection

/-- The session that the request is served with is at most an hour old. -/
def Served.Current (served : Served σ) : Prop :=
  served.arrival.services.sessionSeconds - served.session.created ≤ 3600

instance (served : Served σ) : Decidable served.Current :=
  inferInstanceAs (Decidable (_ ≤ _))

/-- The clock does not go back, within a request or from one to the next. -/
def SecondsAdvance (server : RequestServer σ) (arrival : Arrival σ) : Prop :=
  arrival.services.sessionSeconds ≤ arrival.services.createdSeconds ∧
    ∀ served ∈ server.log, served.arrival.services.createdSeconds ≤ arrival.services.sessionSeconds

/-- The request names no session, and the session with its computed id is more
than an hour old. -/
def Revives (server : RequestServer σ) (arrival : Arrival σ) : Prop :=
  ¬ NamesSession arrival.services server.api arrival.request ∧
    ∃ session, KeyedList.get? server.api.sessions (computedId arrival.services arrival.request) =
      some session ∧ 3600 < arrival.services.sessionSeconds - session.created

/-- The session object is the stored one, or a new one. -/
theorem session_openSession (services : Services) (api : HttpApi σ) (id : Bytes) :
    (openSession services api id).session id =
      (KeyedList.get? api.sessions id).getD ⟨[], services.createdSeconds⟩ := by
  unfold openSession session
  cases stored : KeyedList.get? api.sessions id with
  | none => simp [KeyedList.contains, stored, KeyedList.get?_set_self]
  | some session => simp [KeyedList.contains, stored]

theorem sessionExpired_eq_false_iff {services : Services} {api : HttpApi σ} {id : Bytes} :
    sessionExpired services api id = false ↔
      ∃ session, KeyedList.get? api.sessions id = some session ∧
        services.sessionSeconds - session.created ≤ 3600 := by
  unfold sessionExpired
  cases stored : KeyedList.get? api.sessions id with
  | none => simp
  | some session => simp

theorem current_iff_of_serves {server next : RequestServer σ} {served : Served σ}
    {dispatched : Dispatched σ} (serves : Serves server served dispatched next)
    (advances : SecondsAdvance server served.arrival) :
    served.Current ↔ ¬ Revives server served.arrival := by
  have session : served.session = _ := session_openSession served.arrival.services served.before
    served.id
  have advance := advances.1
  unfold Served.Current Revives
  rw [session, ← serves.before]
  rcases withSession_id served.arrival.services served.before served.arrival.request with
    ⟨names, id⟩ | ⟨nameless, id⟩
  · -- A session that is named has just been checked.
    have same : served.id = served.arrival.request.str sessionKey := id
    obtain ⟨session, stored, current⟩ := sessionExpired_eq_false_iff.mp names.2
    rw [← same] at stored
    simp [names, stored, current]
  · have same : served.id = computedId served.arrival.services served.arrival.request := id
    rw [← same]
    cases stored : KeyedList.get? served.before.sessions served.id with
    | none =>
        simp
        omega
    | some session => simp [nameless]

/-- Over every run, no request is served with a session that is more than an
hour old exactly when no request revives one. -/
theorem current_iff {api : HttpApi σ} {last : RequestServer σ} {arrivals : List (Arrival σ)}
    (run : Run answerRequest SecondsAdvance (.start api) arrivals last) :
    (∀ served ∈ last.log, served.Current) ↔
      Run answerRequest (fun server arrival => ¬ Revives server arrival) (.start api) arrivals
        last := by
  have judged : ∀ (first : RequestServer σ) arrival next, SecondsAdvance first arrival →
      answerRequest first arrival = some next →
      ∃ served, next.log = first.log ++ [served] ∧ (served.Current ↔ ¬ Revives first arrival) := by
    intro first arrival next advances serves
    obtain ⟨served, dispatched, rfl, step⟩ := answerRequest_cases serves
    exact ⟨served, step.log, current_iff_of_serves step advances⟩
  rw [run.logged_iff judged]
  simp [RequestServer.start]

namespace Sample

def page : Memory :=
  Memory.ofString (fun _ => 0) (bytes "GET / HTTP/1.1\r\nHost: localhost\r\n\r\n")

end Sample

section Examples

variable {first second : Int} {kind : RequestResult} {request : JsonObject}
  {last : RequestServer Unit}

theorem secondsAdvance_arrivalAt (ordered : first ≤ second)
    (executes : exec answerRequest (.start Sample.unrouted)
      [Sample.arrivalAt first kind request, Sample.arrivalAt second kind request] = some last) :
    Run answerRequest SecondsAdvance (.start Sample.unrouted)
      [Sample.arrivalAt first kind request, Sample.arrivalAt second kind request] last := by
  apply run_of_exec_of_pairwise
    (fun arrival => arrival.services.sessionSeconds ≤ arrival.services.createdSeconds)
    (fun earlier later => earlier.services.createdSeconds ≤ later.services.sessionSeconds)
    answerRequest_logs executes
  · simp [Sample.arrivalAt]
  · simpa [Sample.arrivalAt] using ordered
  · simp [RequestServer.start]

end Examples

/-- Two requests for the same page, the second a minute later. -/
theorem current_iff_twice :
    ∃ request last,
      Converges (parseHttpRequest Sample.page (fun _ _ => 0) 1 (.new .object)) (.http, request) ∧
      Run answerRequest SecondsAdvance (.start Sample.unrouted)
        [Sample.arrivalAt 0 .http request, Sample.arrivalAt 60 .http request] last ∧
      ((∀ served ∈ last.log, served.Current) ↔
        Run answerRequest (fun server arrival => ¬ Revives server arrival)
          (.start Sample.unrouted)
          [Sample.arrivalAt 0 .http request, Sample.arrivalAt 60 .http request] last) := by
  have facts : (parseHttpRequest Sample.page (fun _ _ => 0) 1 (.new .object) 80).any
      (fun parsed => decide (parsed.1 = .http) &&
        (exec answerRequest (.start Sample.unrouted)
          [Sample.arrivalAt 0 .http parsed.2, Sample.arrivalAt 60 .http parsed.2]).isSome) =
      true := by
    decide +kernel
  obtain ⟨⟨kind, request⟩, parses, holds⟩ := (Option.any_eq_true _ _).mp facts
  rw [Bool.and_eq_true, decide_eq_true_eq] at holds
  obtain ⟨rfl, served⟩ := holds
  obtain ⟨last, executes⟩ := Option.isSome_iff_exists.mp served
  have run := secondsAdvance_arrivalAt (by decide) executes
  exact ⟨request, last, ⟨80, parses⟩, run, current_iff run⟩

/-- A client that sends no session header comes back after more than an hour. -/
theorem exists_not_current :
    ∃ request last,
      Converges (parseHttpRequest Sample.page (fun _ _ => 0) 1 (.new .object)) (.http, request) ∧
      Registered Sample.unrouted ∧
      Run answerRequest SecondsAdvance (.start Sample.unrouted)
        [Sample.arrivalAt 0 .http request, Sample.arrivalAt 3601 .http request] last ∧
      ∃ served ∈ last.log, ¬ served.Current := by
  have facts : (parseHttpRequest Sample.page (fun _ _ => 0) 1 (.new .object) 80).any
      (fun parsed => decide (parsed.1 = .http) &&
        (exec answerRequest (.start Sample.unrouted)
          [Sample.arrivalAt 0 .http parsed.2, Sample.arrivalAt 3601 .http parsed.2]).any
            fun last => last.log.any fun served => !decide served.Current) =
      true := by
    decide +kernel
  obtain ⟨⟨kind, request⟩, parses, holds⟩ := (Option.any_eq_true _ _).mp facts
  rw [Bool.and_eq_true, decide_eq_true_eq] at holds
  obtain ⟨rfl, served⟩ := holds
  obtain ⟨last, executes, expired⟩ := (Option.any_eq_true _ _).mp served
  have run := secondsAdvance_arrivalAt (by decide) executes
  exact ⟨request, last, ⟨80, parses⟩, .new _ _, run, by simpa using expired⟩

end HttpApi

end Libjaypea
