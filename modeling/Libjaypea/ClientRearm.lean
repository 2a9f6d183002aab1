import Libjaypea.Bookkeeping

/-!
# Arming a client again

The entry of a client in the epoll is a one-shot one: after an event the
thread has to arm it again, or nothing more is read from the client.  Whether
it does depends on what `recv` returns, and that on the connection and on the
value of `on_read`.
-/

namespace Libjaypea

namespace EpollServer

/-- What `read` gives; no bytes at the end of the stream. -/
inductive ReadResult
  | bytes (data : Bytes)
  | wouldBlock
  | failed

def recv (callback : Bytes → Int) : ReadResult → Int
  | .failed => -1
  | .wouldBlock => 0
  | .bytes [] => -2
  | .bytes (byte :: rest) => callback (byte :: rest)

end EpollServer

namespace TlsEpollServer

/-- What `SSL_get_error` says about a call of `SSL_read`. -/
inductive SslResult
  | none (data : Bytes)
  | wantRead
  | zeroReturn
  | syscall
  | other

/-- In milliseconds. -/
def timeout : Nat := 10000

/-- The results of the calls of `SSL_read`, each with the time that has passed
since the first; `none` while the last one wants to read. -/
def recv (callback : Bytes → Int) (diff : Nat) : List (SslResult × Nat) → Option Int
  | [] => if diff > timeout then some 1 else none
  | (result, elapsed) :: later =>
      if diff > timeout then some 1
      else
        match result with
        | .wantRead => recv callback elapsed later
        | .zeroReturn => some (-2)
        | .syscall => some (-3)
        | .other => some (-1)
        | .none data => some (if callback data < 0 then -1 else data.length)

/-- How the reading ends: with a result that does not want to read, or by the timeout. -/
inductive Ends : List (SslResult × Nat) → Option SslResult → Prop
  | result {result : SslResult} {elapsed : Nat} {later : List (SslResult × Nat)}
      (decided : result ≠ .wantRead) : Ends ((result, elapsed) :: later) (some result)
  | timeout {elapsed : Nat} {later : List (SslResult × Nat)} (late : elapsed > timeout) :
      Ends ((.wantRead, elapsed) :: later) none
  | wait {elapsed : Nat} {later : List (SslResult × Nat)} {last : Option SslResult}
      (early : elapsed ≤ timeout) (ends : Ends later last) :
      Ends ((.wantRead, elapsed) :: later) last

theorem Ends.unique {results : List (SslResult × Nat)} {first second : Option SslResult}
    (one : Ends results first) (other : Ends results second) : first = second := by
  induction one with
  | result decided =>
      cases other with
      | result _ => rfl
      | timeout _ => exact absurd rfl decided
      | wait _ _ => exact absurd rfl decided
  | timeout late =>
      cases other with
      | result decided => exact absurd rfl decided
      | timeout _ => rfl
      | wait early _ => exact absurd early (Nat.not_le_of_lt late)
  | wait early _ ih =>
      cases other with
      | result decided => exact absurd rfl decided
      | timeout late => exact absurd early (Nat.not_le_of_lt late)
      | wait _ ends => exact ih ends

/-- What `recv` makes of the end of the reading. -/
def returned (callback : Bytes → Int) : Option SslResult → Int
  | none => 1
  | some .zeroReturn => -2
  | some .syscall => -3
  | some (.none data) => if callback data < 0 then -1 else data.length
  | some _ => -1

theorem ends_of_recv {callback : Bytes → Int} {diff : Nat} {results : List (SslResult × Nat)}
    {len : Int} (early : diff ≤ timeout) (receives : recv callback diff results = some len) :
    ∃ last, Ends results last ∧ len = returned callback last := by
  have inTime : ¬ diff > timeout := Nat.not_lt.mpr early
  induction results generalizing diff with
  | nil =>
      rw [recv, if_neg inTime] at receives
      cases receives
  | cons attempt later ih =>
      obtain ⟨result, elapsed⟩ := attempt
      unfold recv at receives
      rw [if_neg inTime] at receives
      cases result with
      | wantRead =>
          by_cases late : elapsed > timeout
          · have expires : recv callback elapsed later = some 1 := by
              unfold recv
              cases later <;> exact if_pos late
            rw [expires] at receives
            cases receives
            exact ⟨none, .timeout late, rfl⟩
          · obtain ⟨last, ends, returns⟩ := ih (Nat.not_lt.mp late) receives late
            exact ⟨last, .wait (Nat.not_lt.mp late) ends, returns⟩
      | none data =>
          cases receives
          exact ⟨some (.none data), .result (by simp), rfl⟩
      | zeroReturn =>
          cases receives
          exact ⟨some .zeroReturn, .result (by simp), rfl⟩
      | syscall =>
          cases receives
          exact ⟨some .syscall, .result (by simp), rfl⟩
      | other =>
          cases receives
          exact ⟨some .other, .result (by simp), rfl⟩

end TlsEpollServer

namespace EpollServer

/-- What arrives at a client of either server. -/
inductive Incoming
  | plain (result : ReadResult)
  | tls (results : List (TlsEpollServer.SslResult × Nat))

namespace Incoming

def recv (onRead : Bytes → Int) : Incoming → Option Int
  | plain result => some (EpollServer.recv onRead result)
  | tls results => TlsEpollServer.recv onRead 0 results

/-- The connection is over, or `on_read` wants it to be. -/
def Closes (onRead : Bytes → Int) : Incoming → Prop
  | plain (.bytes data) => data = [] ∨ onRead data < 0
  | plain .wouldBlock => False
  | plain .failed => True
  | tls results => ∃ result, TlsEpollServer.Ends results (some result) ∧
      ∀ data, result = .none data → onRead data < 0

/-- Bytes are read, and fewer than a packet: for a plain client as `on_read`
counts them. -/
def Continues (onRead : Bytes → Int) : Incoming → Prop
  | plain (.bytes data) => data ≠ [] ∧ 0 < onRead data ∧ onRead data < packetLimit
  | plain .wouldBlock => False
  | plain .failed => False
  | tls results => TlsEpollServer.Ends results none ∨
      ∃ data, TlsEpollServer.Ends results (some (.none data)) ∧ 0 ≤ onRead data ∧
        0 < data.length ∧ data.length < packetLimit

variable {onRead : Bytes → Int} {incoming : Incoming} {len : Int}

theorem closes_iff (receives : incoming.recv onRead = some len) :
    incoming.Closes onRead ↔ len < 0 := by
  cases incoming with
  | plain result =>
      cases receives
      rcases result with (_ | ⟨byte, rest⟩) | _ | _
      all_goals simp [Closes, EpollServer.recv]
  | tls results =>
      obtain ⟨last, ends, rfl⟩ := TlsEpollServer.ends_of_recv (Nat.zero_le _) receives
      constructor
      · rintro ⟨result, other, refuses⟩
        cases ends.unique other
        cases result with
        | none data => simp [TlsEpollServer.returned, refuses data rfl]
        | _ => simp [TlsEpollServer.returned]
      · intro negative
        rcases last with _ | result
        · simp [TlsEpollServer.returned] at negative
        · refine ⟨result, ends, ?_⟩
          rintro data rfl
          by_contra accepts
          simp only [TlsEpollServer.returned, accepts, if_false] at negative
          omega

theorem continues_iff (receives : incoming.recv onRead = some len) :
    incoming.Continues onRead ↔ 0 < len ∧ len < packetLimit := by
  cases incoming with
  | plain result =>
      cases receives
      rcases result with (_ | ⟨byte, rest⟩) | _ | _
      all_goals simp [Continues, EpollServer.recv]
  | tls results =>
      obtain ⟨last, ends, rfl⟩ := TlsEpollServer.ends_of_recv (Nat.zero_le _) receives
      constructor
      · rintro (other | ⟨data, other, accepts, nonempty, short⟩)
        · cases ends.unique other
          simp [TlsEpollServer.returned, packetLimit]
        · cases ends.unique other
          simp only [TlsEpollServer.returned, Int.not_lt.mpr accepts, if_false]
          omega
      · rintro ⟨positive, short⟩
        rcases last with _ | result
        · exact .inl ends
        · cases result with
          | none data =>
              refine .inr ⟨data, ends, ?_⟩
              simp only [TlsEpollServer.returned] at positive short
              split at positive
              · omega
              · rename_i accepts
                rw [if_neg accepts] at short
                omega
          | _ => simp [TlsEpollServer.returned] at positive

end Incoming

/-- The event in hand is of a client that this thread serves: it has disarmed
the client's entry, and no timer is the client's but the one it is mapped to. -/
structure Ready (config : Config) (state : ThreadState) (fd : Int)
    (rest : List (Int × Signal)) : Prop where
  pending : state.pending = (fd, .readable) :: rest
  ordinary : ¬ config.isSpecial fd
  isOpen : state.isOpen fd = true
  disarmed : state.epoll fd = Interest.disarmed
  timer : ∀ timer, KeyedList.get? state.timerToClient timer = some fd →
    KeyedList.get? state.clientToTimer fd = some timer

/-- `timerfd_settime` succeeds on the client's timer. -/
def TimerSet (state : ThreadState) (results : Results) (fd : Int) : Prop :=
  results.settime = true ∧
    state.isOpen ((KeyedList.get? state.clientToTimer fd).getD 0) = true

/-- The client is closed and in neither map. -/
structure Gone (state : ThreadState) (fd : Int) : Prop where
  closed : state.isOpen fd = false
  client : fd ∉ KeyedList.keys state.clientToTimer
  timer : ∀ timer, KeyedList.get? state.timerToClient timer ≠ some fd

section Rearm

variable {config : Config} {state next : ThreadState} {results : Results} {fd : Int}
  {rest : List (Int × Signal)}

theorem Ready.of_sound (sound : Sound config state) (member : fd ∈ openClients state.log)
    (pending : state.pending = (fd, .readable) :: rest)
    (disarmed : state.epoll fd = Interest.disarmed) : Ready config state fd rest where
  pending := pending
  ordinary := fun isSpecial => (sound.special fd isSpecial).2.1 member
  isOpen := sound.clientOpen fd member
  disarmed := disarmed
  timer := fun timer tracked => (sound.inverse fd timer).mpr tracked

theorem Ready.handles (ready : Ready config state fd rest)
    (steps : stepEvents config state (.handle results) = some next) :
    next = { state with pending := rest }.handleClient config results fd := by
  have ordinary := ready.ordinary
  unfold Config.isSpecial at ordinary
  push Not at ordinary
  obtain ⟨notServer, notTimeout, notBroadcast⟩ := ordinary
  simp [stepEvents, ready.pending, ThreadState.handleEvent, notServer, notTimeout,
    notBroadcast] at steps
  exact steps.symm

theorem timerSet_iff : (results.settime &&
    state.isOpen ((KeyedList.get? state.clientToTimer fd).getD 0)) = true ↔
      TimerSet state results fd :=
  Bool.and_eq_true_iff

theorem Ready.gone (ready : Ready config state fd rest) (set : TimerSet state results fd)
    (negative : results.recv < 0) :
    Gone ({ state with pending := rest }.handleClient config results fd) fd := by
  have only : ∀ timer, KeyedList.get? (KeyedList.erase state.timerToClient
      ((KeyedList.get? state.clientToTimer fd).getD 0)) timer ≠ some fd := by
    intro timer tracked
    rw [KeyedList.get?_erase] at tracked
    split at tracked
    · cases tracked
    · rename_i other
      rw [ready.timer timer tracked] at other
      exact other rfl
  have erased : ∀ timers : List (Int × Int), fd ∉ KeyedList.keys (KeyedList.erase timers fd) := by
    intro timers
    rw [← KeyedList.get?_eq_none_iff, KeyedList.get?_erase, if_pos rfl]
  unfold ThreadState.handleClient
  simp only [timerSet_iff.mpr set, Bool.not_true, Bool.false_eq_true, if_false, negative, if_true]
  split
  · exact ⟨Function.update_self .., erased _, only⟩
  · exact ⟨Function.update_self .., erased _, only⟩

/-- Without a working timer, or when nothing or too much is read, nothing is done. -/
theorem Ready.left (ready : Ready config state fd rest)
    (idle : ¬ TimerSet state results fd ∨
      ¬ results.recv < 0 ∧ ¬ (0 < results.recv ∧ results.recv < packetLimit)) :
    let after := { state with pending := rest }.handleClient config results fd
    after.isOpen fd = true ∧ after.epoll fd = Interest.disarmed := by
  have outcome : (!(results.settime &&
      state.isOpen ((KeyedList.get? state.clientToTimer fd).getD 0))) = true ∨
        ¬ results.recv < 0 ∧ ((packetLimit : Int) ≤ results.recv ∨ results.recv = 0) := by
    rcases idle with failed | ⟨notNegative, outside⟩
    · rw [← timerSet_iff, Bool.not_eq_true] at failed
      exact .inl (by rw [failed]; rfl)
    · right
      omega
  unfold ThreadState.handleClient
  dsimp only
  rcases outcome with failed | ⟨notNegative, outside⟩
  · rw [if_pos failed]
    split
    · exact ⟨ready.isOpen, ready.disarmed⟩
    · exact ⟨ready.isOpen, ready.disarmed⟩
  · rw [if_neg notNegative, if_pos outside, ite_self]
    split
    · exact ⟨ready.isOpen, ready.disarmed⟩
    · exact ⟨ready.isOpen, ready.disarmed⟩

theorem Ready.rearmed (ready : Ready config state fd rest) (set : TimerSet state results fd)
    (positive : 0 < results.recv) (short : results.recv < packetLimit) :
    let after := { state with pending := rest }.handleClient config results fd
    after.isOpen fd = true ∧
      after.epoll fd = if results.controls fd then Interest.armed else Interest.disarmed := by
  have notNegative : ¬ results.recv < 0 := by omega
  have inside : ¬ ((packetLimit : Int) ≤ results.recv ∨ results.recv = 0) := by omega
  have again : ∀ looked : ThreadState, looked.isOpen = state.isOpen →
      looked.epoll = state.epoll → (looked.rearm results fd).isOpen fd = true ∧
        (looked.rearm results fd).epoll fd =
          if results.controls fd then Interest.armed else Interest.disarmed := by
    intro looked isOpen epoll
    unfold ThreadState.rearm
    split
    · refine ⟨isOpen ▸ ready.isOpen, (Function.update_self ..).trans ?_⟩
      rw [epoll, ready.disarmed]
      rfl
    · exact ⟨isOpen ▸ ready.isOpen, epoll ▸ ready.disarmed⟩
  unfold ThreadState.handleClient
  simp only [timerSet_iff.mpr set, Bool.not_true, Bool.false_eq_true, if_false, notNegative, inside]
  split
  · exact again _ rfl rfl
  · exact again _ rfl rfl

/-- After a readable event the client is gone or armed exactly when its timer
could be set and `recv` did not ask to leave it alone. -/
theorem gone_or_armed_iff (ready : Ready config state fd rest) {incoming : Incoming}
    {onRead : Bytes → Int} (receives : incoming.recv onRead = some results.recv)
    (steps : stepEvents config state (.handle results) = some next) :
    Gone next fd ∨ next.epoll fd = Interest.armed ↔
      TimerSet state results fd ∧
        (incoming.Closes onRead ∨ incoming.Continues onRead ∧ results.controls fd = true) := by
  rw [Incoming.closes_iff receives, Incoming.continues_iff receives, ready.handles steps]
  have left : ∀ after : ThreadState, after.isOpen fd = true → after.epoll fd = Interest.disarmed →
      ¬ (Gone after fd ∨ after.epoll fd = Interest.armed) := by
    rintro after isOpen disarmed (gone | armed)
    · rw [gone.closed] at isOpen
      cases isOpen
    · rw [disarmed] at armed
      cases armed
  by_cases set : TimerSet state results fd
  · by_cases negative : results.recv < 0
    · have gone := ready.gone set negative
      simp [gone, set, negative]
    · by_cases inside : 0 < results.recv ∧ results.recv < packetLimit
      · obtain ⟨isOpen, epoll⟩ := ready.rearmed set inside.1 inside.2
        by_cases controls : results.controls fd = true
        · rw [if_pos controls] at epoll
          simp [epoll, set, inside, controls]
        · rw [if_neg controls] at epoll
          simp [left _ isOpen epoll, negative, controls]
      · obtain ⟨isOpen, epoll⟩ := ready.left (.inr ⟨negative, inside⟩)
        simp [left _ isOpen epoll, negative, inside]
  · obtain ⟨isOpen, epoll⟩ := ready.left (.inl set)
    simp [left _ isOpen epoll, set]

end Rearm

namespace Sample

/-- `GET /` of a plain client. -/
def request : Incoming := .plain (.bytes (bytes "GET /"))

def accepting : List ThreadAction :=
  [.wait [(3, .readable)], .handle oneClient, .wait [(10, .readable)]]

end Sample

/-- A client whose bytes `on_read` takes as one. -/
theorem gone_or_armed_iff_taken : ∃ state next,
    Transitions.Run (stepEvents Sample.config) (Orderly Sample.config)
      (ThreadState.start Sample.config) Sample.accepting state ∧
    stepEvents Sample.config state (.handle { Sample.calm with recv := 1 }) = some next ∧
    (Gone next 10 ∨ next.epoll 10 = Interest.armed) := by
  have runs : ∃ state, Transitions.Run (stepEvents Sample.config) (Orderly Sample.config)
      (ThreadState.start Sample.config) Sample.accepting state ∧
      (∃ next, stepEvents Sample.config state (.handle { Sample.calm with recv := 1 }) =
        some next) ∧
      10 ∈ openClients state.log ∧ state.pending = [(10, .readable)] ∧
      state.epoll 10 = Interest.disarmed ∧
      TimerSet state { Sample.calm with recv := 1 } 10 :=
    ⟨_, .cons trivial rfl (.cons (Sample.orderly_oneClient rfl) rfl (.cons trivial rfl (.nil _))),
      ⟨_, rfl⟩, List.mem_singleton.mpr rfl, rfl, rfl, rfl, rfl⟩
  obtain ⟨state, run, ⟨next, steps⟩, member, pending, disarmed, set⟩ := runs
  have sound : Sound Sample.config state := sound_of_orderly run
  have receives : Sample.request.recv (fun _ => 1) = some 1 := rfl
  refine ⟨state, next, run, steps, ?_⟩
  apply (gone_or_armed_iff (.of_sound sound member pending disarmed) receives steps).mpr
  exact ⟨set, .inr ⟨⟨by decide, by decide, by decide⟩, rfl⟩⟩

/-- The answer to the request is longer than a packet. -/
theorem exists_left_disarmed : ∃ state next,
    Transitions.Run (stepEvents Sample.config) Transitions.anything
      (ThreadState.start Sample.config) Sample.accepting state ∧
    Sample.request.recv (fun _ => 20000) = some 20000 ∧
    stepEvents Sample.config state (.handle { Sample.calm with recv := 20000 }) = some next ∧
    ¬ (Gone next 10 ∨ next.epoll 10 = Interest.armed) := by
  refine ⟨_, _, .cons trivial rfl (.cons trivial rfl (.cons trivial rfl (.nil _))), rfl, rfl, ?_⟩
  rintro (gone | armed)
  · have closed := gone.closed
    cases closed
  · cases armed

end EpollServer

end Libjaypea
