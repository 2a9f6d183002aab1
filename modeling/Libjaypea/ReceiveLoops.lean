import Libjaypea.TcpEventClient
import Libjaypea.Transitions
import Libjaypea.Util

/-!
# The receive loops of the clients

`TlsClientManager::communicate` collects what `SSL_read` returns in the response
of its caller, and `EventClient::recv` reads into the packet of `run`.  Both put
a terminator behind the data, and both arrays are exactly as long as what may be
read at once.
-/

namespace Libjaypea

namespace ReceiveLoop

/-- The arrays of `PACKET_LIMIT` bytes. -/
inductive Target
  | buffer
  | response
  | packet
  deriving DecidableEq

/-- The bytes of an array that are written at once. -/
structure Write where
  target : Target
  offset : Nat
  length : Nat
  deriving DecidableEq

def Write.Inside (write : Write) : Prop :=
  write.offset + write.length ≤ packetLimit

instance (write : Write) : Decidable write.Inside :=
  Nat.decLe _ _

def Inside (writes : List Write) : Prop :=
  ∀ write ∈ writes, write.Inside

theorem inside_cons {write : Write} {writes : List Write} :
    Inside (write :: writes) ↔ write.Inside ∧ Inside writes :=
  List.forall_mem_cons

theorem inside_append {first second : List Write} :
    Inside (first ++ second) ↔ Inside first ∧ Inside second :=
  List.forall_mem_append

end ReceiveLoop

open ReceiveLoop

namespace TlsClientManager

/-- What `SSL_get_error` returns. -/
inductive SslError
  | none
  | wantRead
  | wantWrite
  | zeroReturn
  | other
  deriving DecidableEq

/-- What the calls of one pass return, and the time at its end. -/
structure Pass where
  len : Int
  err : SslError
  diff : Int

def timeout : Int := 10000

/-- The loop, with the bytes that the response holds already. -/
def receive (offset : Nat) (diff : Int) : List Pass → List Write
  | [] => []
  | pass :: passes =>
      if diff > timeout then []
      else
        let len := if pass.err = .wantWrite then 0 else pass.len
        let read : Write := ⟨.buffer, 0, pass.len.toNat⟩
        if len > 0 ∧ pass.err = .none then
          read :: ⟨.buffer, len.toNat, 1⟩ :: ⟨.response, offset, len.toNat⟩ ::
            ⟨.response, offset + len.toNat, 1⟩ :: receive (offset + len.toNat) pass.diff passes
        else if len < 0 ∧ pass.err = .wantRead then [read]
        else if len = 0 then [read]
        else if len > 0 then read :: receive offset pass.diff passes
        else [read]

/-- `established` is false when a call in front of the loop fails. -/
def communicate (established : Bool) (passes : List Pass) : List Write :=
  if established then receive 0 0 passes else []

/-- The bytes that `SSL_read` delivers before it fails or too much time has passed. -/
def received (diff : Int) : List Pass → Nat
  | [] => 0
  | pass :: passes =>
      if diff > timeout ∨ pass.len ≤ 0 ∨ pass.err = .wantWrite then 0
      else (if pass.err = .none then pass.len.toNat else 0) + received pass.diff passes

section Receive

variable {pass : Pass} {passes : List Pass} {offset : Nat} {diff : Int}

theorem receive_of_late (late : diff > timeout) :
    receive offset diff (pass :: passes) = [] ∧ received diff (pass :: passes) = 0 :=
  ⟨if_pos late, if_pos (.inl late)⟩

theorem receive_of_stops (early : ¬ diff > timeout)
    (stops : pass.len ≤ 0 ∨ pass.err = .wantWrite) :
    receive offset diff (pass :: passes) = [⟨.buffer, 0, pass.len.toNat⟩] ∧
      received diff (pass :: passes) = 0 := by
  refine ⟨?_, if_pos (.inr stops)⟩
  rw [receive, if_neg early]
  by_cases close : pass.err = .wantWrite
  · simp [close]
  · have negative : ¬ pass.len > 0 := Int.not_lt.mpr (stops.resolve_right close)
    simp only [close, if_false, negative, false_and]
    split_ifs <;> rfl

theorem receive_of_accepted (early : ¬ diff > timeout) (positive : 0 < pass.len)
    (accepted : pass.err = .none) :
    receive offset diff (pass :: passes) =
        ⟨.buffer, 0, pass.len.toNat⟩ :: ⟨.buffer, pass.len.toNat, 1⟩ ::
          ⟨.response, offset, pass.len.toNat⟩ :: ⟨.response, offset + pass.len.toNat, 1⟩ ::
            receive (offset + pass.len.toNat) pass.diff passes ∧
      received diff (pass :: passes) = pass.len.toNat + received pass.diff passes := by
  have more : ¬ (diff > timeout ∨ pass.len ≤ 0 ∨ pass.err = .wantWrite) := by
    simp only [accepted, reduceCtorEq, or_false]
    omega
  constructor
  · rw [receive, if_neg early]
    simp [accepted, positive]
  · rw [received, if_neg more, if_pos accepted]

/-- `SSL_read` has returned data with another error: it is not copied. -/
theorem receive_of_skipped (early : ¬ diff > timeout) (positive : 0 < pass.len)
    (skipped : pass.err ≠ .none) (open_ : pass.err ≠ .wantWrite) :
    receive offset diff (pass :: passes) =
        ⟨.buffer, 0, pass.len.toNat⟩ :: receive offset pass.diff passes ∧
      received diff (pass :: passes) = received pass.diff passes := by
  have more : ¬ (diff > timeout ∨ pass.len ≤ 0 ∨ pass.err = .wantWrite) := by
    simp only [open_, or_false]
    omega
  have notNegative : ¬ pass.len < 0 := by omega
  have notZero : pass.len ≠ 0 := by omega
  constructor
  · rw [receive, if_neg early]
    simp [skipped, open_, positive, notNegative, notZero]
  · rw [received, if_neg more, if_neg skipped, Nat.zero_add]

end Receive

/-- From any offset in the response, the writes of the loop stay inside exactly
when the data that is still to come leaves room for the terminator. -/
theorem inside_receive_iff {passes : List Pass}
    (atMost : ∀ pass ∈ passes, pass.len ≤ packetLimit) {offset : Nat} (room : offset < packetLimit)
    (diff : Int) :
    Inside (receive offset diff passes) ↔ offset + received diff passes < packetLimit := by
  induction passes generalizing offset diff with
  | nil => simp [receive, received, Inside, room]
  | cons pass passes ih =>
      obtain ⟨limit, limits⟩ := List.forall_mem_cons.mp atMost
      have read : (⟨.buffer, 0, pass.len.toNat⟩ : Write).Inside := by
        simp only [Write.Inside]
        omega
      by_cases late : diff > timeout
      · obtain ⟨nothing, none⟩ := @receive_of_late pass passes offset diff late
        rw [nothing, none]
        simp [Inside, room]
      by_cases stops : pass.len ≤ 0 ∨ pass.err = .wantWrite
      · obtain ⟨last, none⟩ := @receive_of_stops pass passes offset diff late stops
        rw [last, none]
        simp [Inside, read, room]
      obtain ⟨positive, open_⟩ := not_or.mp stops
      rw [Int.not_le] at positive
      by_cases accepted : pass.err = .none
      · obtain ⟨writes, data⟩ := @receive_of_accepted pass passes offset diff late positive accepted
        rw [writes, data, inside_cons, inside_cons, inside_cons, inside_cons]
        by_cases fits : offset + pass.len.toNat < packetLimit
        · rw [ih limits fits]
          simp only [Write.Inside]
          omega
        · simp only [Write.Inside]
          omega
      · obtain ⟨writes, data⟩ :=
          @receive_of_skipped pass passes offset diff late positive accepted open_
        rw [writes, data, inside_cons, ih limits room]
        exact and_iff_right read

theorem inside_communicate_iff {passes : List Pass}
    (atMost : ∀ pass ∈ passes, pass.len ≤ packetLimit) (established : Bool) :
    Inside (communicate established passes) ↔
      (established = true → received 0 passes < packetLimit) := by
  cases established with
  | false => simp [communicate, Inside]
  | true =>
      have loop := inside_receive_iff atMost (by decide : 0 < packetLimit) 0
      rw [Nat.zero_add] at loop
      simpa [communicate] using loop

end TlsClientManager

namespace EventClient

open Transitions

/-- What `read` returns, with `errno` and the answer of `on_read`. -/
structure ReadResult where
  len : Int
  wouldBlock : Bool
  onRead : Int

/-- `recv` with what it writes into the packet. -/
def recv (result : ReadResult) : Int × List Write :=
  if result.len < 0 then (if result.wouldBlock then 0 else -1, [])
  else if result.len = 0 then (-2, [])
  else (result.onRead, [⟨.packet, 0, result.len.toNat⟩, ⟨.packet, result.len.toNat, 1⟩])

/-- A run of the client with what `read` has returned and what was written. -/
structure Reception where
  client : Client
  reads : List Int
  writes : List Write

/-- A visit calls `recv` for a connection that is connected. -/
def Client.reads (client : Client) : Bool :=
  match client.control with
  | .visiting (pointer :: _) => client.state pointer = .connected
  | _ => false

/-- A step of the client, with the result of `read` where a visit calls it. -/
def Reception.step (reception : Reception) : Action × ReadResult → Option Reception
  | (.visit results, result) =>
      let received := recv result
      (EventClient.step reception.client (.visit { results with recv := received.1 })).map
        fun client =>
          if reception.client.reads then
            ⟨client, reception.reads ++ [result.len], reception.writes ++ received.2⟩
          else { reception with client := client }
  | (action, _) =>
      (EventClient.step reception.client action).map fun client => { reception with client := client }

/-- `read` returns at most what it was asked for. -/
def AtMost (_ : Reception) (event : Action × ReadResult) : Prop :=
  event.2.len ≤ packetLimit

theorem inside_recv_iff {result : ReadResult} (atMost : result.len ≤ packetLimit) :
    Inside (recv result).2 ↔ result.len < packetLimit := by
  unfold recv
  split
  · rename_i failed
    have less : result.len < packetLimit := by
      have positive : (0 : Int) < packetLimit := by decide
      omega
    simp [Inside, less]
  · split
    · rename_i zero
      rw [zero]
      simp [Inside, packetLimit]
    · have nothing : Inside [] := by simp [Inside]
      change Inside [_, _] ↔ _
      rw [inside_cons, inside_cons, and_iff_left nothing]
      simp only [Write.Inside]
      omega

/-- The writes of a reception stay inside the packet as long as its reads do. -/
def Reception.Bounded (reception : Reception) : Prop :=
  Inside reception.writes ↔ ∀ read ∈ reception.reads, read < packetLimit

theorem Reception.Bounded.step {reception next : Reception} {event : Action × ReadResult}
    (bounded : reception.Bounded) (atMost : AtMost reception event)
    (steps : reception.step event = some next) : next.Bounded := by
  obtain ⟨action, result⟩ := event
  have other {client : Client} : (⟨client, reception.reads, reception.writes⟩ : Reception).Bounded :=
    bounded
  cases action with
  | loop stops =>
      obtain ⟨client, -, rfl⟩ := Option.map_eq_some_iff.mp steps
      exact other
  | endPass =>
      obtain ⟨client, -, rfl⟩ := Option.map_eq_some_iff.mp steps
      exact other
  | visit results =>
      obtain ⟨client, -, rfl⟩ := Option.map_eq_some_iff.mp steps
      cases reception.client.reads with
      | false => exact other
      | true =>
          have here := inside_recv_iff atMost
          simp only [Bounded, if_true, inside_append, List.forall_mem_append,
            List.forall_mem_singleton, here] at bounded ⊢
          exact and_congr_left' bounded

theorem inside_packet_iff {connection : Nat → Connection} {uninitialised : Int32}
    {added : List Nat} {events : List (Action × ReadResult)} {reception : Reception}
    (run : Run Reception.step AtMost ⟨.start connection uninitialised added, [], []⟩ events reception) :
    Inside reception.writes ↔ ∀ read ∈ reception.reads, read < packetLimit := by
  have start : (⟨.start connection uninitialised added, [], []⟩ : Reception).Bounded := by
    simp [Reception.Bounded, Inside]
  have bounded : reception.Bounded := by
    apply run.invariant _ start
    intro first event next holds atMost steps
    exact holds.step atMost steps
  exact bounded

end EventClient

namespace ReceiveLoop

open TlsClientManager EventClient Transitions

/-- The clients write inside their arrays exactly as long as a response is
shorter than `PACKET_LIMIT`, and every read of the event client is. -/
theorem inside_iff {passes : List Pass} (atMost : ∀ pass ∈ passes, pass.len ≤ packetLimit)
    (established : Bool) {connection : Nat → Connection} {uninitialised : Int32}
    {added : List Nat} {events : List (Action × ReadResult)} {reception : Reception}
    (run : Run Reception.step AtMost ⟨.start connection uninitialised added, [], []⟩ events reception) :
    (Inside (communicate established passes) ↔
        (established = true → received 0 passes < packetLimit)) ∧
      (Inside reception.writes ↔ ∀ read ∈ reception.reads, read < packetLimit) :=
  ⟨inside_communicate_iff atMost established, inside_packet_iff run⟩

namespace Sample

def connection (_ : Nat) : Connection :=
  ⟨-1, [], .disconnected, 0⟩

def results : Results :=
  ⟨.opened 5, none, 0, .connected, false, 0⟩

/-- The first connection is connected and then read from once. -/
def events (len : Int) : List (Action × ReadResult) :=
  [.loop false, .visit results, .endPass, .loop false, .visit results, .endPass, .loop false,
    .visit results].map fun action => (action, ⟨len, false, len⟩)

theorem exists_run (len : Int) (positive : 0 < len) (atMost : len ≤ packetLimit) :
    ∃ reception, Run Reception.step AtMost ⟨.start connection 0 [1], [], []⟩ (events len) reception ∧
      reception.reads = [len] ∧
      reception.writes = [⟨.packet, 0, len.toNat⟩, ⟨.packet, len.toNat, 1⟩] := by
  have read : recv ⟨len, false, len⟩ =
      (len, [⟨.packet, 0, len.toNat⟩, ⟨.packet, len.toNat, 1⟩]) := by
    have notNegative : ¬ len < 0 := by omega
    have notZero : len ≠ 0 := by omega
    simp [recv, notNegative, notZero]
  refine ⟨_, .cons atMost rfl (.cons atMost rfl (.cons atMost rfl (.cons atMost rfl
    (.cons atMost rfl (.cons atMost rfl (.cons atMost rfl (.cons atMost rfl
      (.nil _)))))))), rfl, ?_⟩
  exact congrArg Prod.snd read

end Sample

theorem inside_response :
    Inside (communicate true [⟨16000, .none, 5⟩, ⟨383, .none, 9⟩, ⟨0, .zeroReturn, 9⟩]) ∧
      ∃ reception, Run Reception.step AtMost ⟨.start Sample.connection 0 [1], [], []⟩
        (Sample.events 16383) reception ∧ reception.reads = [16383] ∧
          Inside reception.writes := by
  obtain ⟨reception, run, reads, -⟩ := Sample.exists_run 16383 (by decide) (by decide)
  have both := @inside_iff [⟨16000, .none, 5⟩, ⟨383, .none, 9⟩, ⟨0, .zeroReturn, 9⟩]
    (by decide) true _ _ _ _ _ run
  exact ⟨both.1.mpr fun _ => by decide, reception, run, reads, both.2.mpr (by rw [reads]; decide)⟩

/-- A response of two records that fill the array, and a packet that fills it. -/
theorem exists_not_inside :
    ¬ Inside (communicate true [⟨8192, .none, 5⟩, ⟨8192, .none, 9⟩]) ∧
      ∃ reception, Run Reception.step AtMost ⟨.start Sample.connection 0 [1], [], []⟩
        (Sample.events packetLimit) reception ∧ ¬ Inside reception.writes := by
  constructor
  · intro inside
    have write := inside ⟨.response, 16384, 1⟩ (by decide)
    exact absurd write (by decide)
  · obtain ⟨reception, run, -, writes⟩ := Sample.exists_run packetLimit (by decide) (by decide)
    refine ⟨reception, run, fun inside => ?_⟩
    rw [writes] at inside
    have write := inside ⟨.packet, 16384, 1⟩ (by decide)
    exact absurd write (by decide)

end ReceiveLoop

end Libjaypea
