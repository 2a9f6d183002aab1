import Libjaypea.Comd

/-!
# Who writes to the shell

The state that `main` keeps for all connections together says what has happened
on the connection that is open.  Whatever the order of connections, messages and
disconnections, only a client that named itself and asked for the shell, and was
sent both replies, gets anything into the shell's input.
-/

namespace Libjaypea

namespace Comd

open Transitions

/-- What is logged for a connection that exchanges packets. -/
def Event.OfExchange (fd : Int) (event : Event) : Prop :=
  (∃ message, event = .received fd message) ∨ ∃ data, event = .written fd data

/-- Since `on_connect`, the first two messages were the right ones and got their
replies, and nothing but an exchange of packets has followed. -/
def Identified (fd : Int) (log : List Event) : Prop :=
  ∃ exchange first second earlier,
    log = exchange ++ .replied fd startRoutine false :: .received fd second ::
      .replied fd verified false :: .received fd first :: .connected fd :: earlier ∧
    cString first = identity ∧ cString second = routines .shell ∧
    ∀ event ∈ exchange, event.OfExchange fd

/-- A message of an identified client is being handled. -/
def Authorized (fd : Int) (log : List Event) : Prop :=
  ∃ message earlier, log = .received fd message :: earlier ∧ Identified fd earlier

/-- What the protocol state says about the open connection. -/
def Stage (fd : Int) (log : List Event) : ComdState → Prop
  | .verifyIdentity => ∃ earlier, log = .connected fd :: earlier
  | .selectRoutine => ∃ first earlier,
      log = .replied fd verified false :: .received fd first :: .connected fd :: earlier ∧
        cString first = identity
  | .exchangePackets => Identified fd log

def Written (log : List Event) : Prop :=
  ∀ fd data before, .written fd data :: before <:+ log → Authorized fd before

structure Session (server : Server) : Prop where
  count : server.numConnections.toNat = server.clients.length
  single : server.clients.length ≤ 1
  stage : ∀ fd ∈ server.clients, Stage fd server.log server.state
  written : Written server.log

section Log

variable {fd : Int} {log : List Event}

theorem Written.cons (written : Written log) {event : Event}
    (other : ∀ fd data, event = .written fd data → Authorized fd log) : Written (event :: log) := by
  intro fd data before suffix
  rcases List.suffix_cons_iff.mp suffix with same | inside
  · obtain ⟨rfl, rfl⟩ := List.cons.inj same
    exact other fd data rfl
  · exact written fd data before inside

theorem Identified.cons (identified : Identified fd log) {event : Event}
    (ofExchange : event.OfExchange fd) : Identified fd (event :: log) := by
  obtain ⟨exchange, first, second, earlier, rfl, named, asked, events⟩ := identified
  refine ⟨event :: exchange, first, second, earlier, rfl, named, asked, ?_⟩
  intro other member
  rcases List.mem_cons.mp member with rfl | member
  · exact ofExchange
  · exact events other member

end Log

/-- What is left of the session after a message was handled. -/
structure Handled (server : Server) (fd : Int) (answer : Int × Server) : Prop where
  numConnections : answer.2.numConnections = server.numConnections
  clients : answer.2.clients = server.clients
  written : Written answer.2.log
  stage : 0 ≤ answer.1 → Stage fd answer.2.log answer.2.state

section Messages

variable {server : Server} {calls : Calls} {fd : Int} {data : Bytes}

theorem handled_of_refused {shell : Shell} (written : Written server.log) :
    Handled server fd (-1, { server with shell := shell }) :=
  ⟨rfl, rfl, written, fun ok => absurd ok (by simp)⟩

theorem handled_of_replied {reply : Bytes} (written : Written server.log) :
    Handled server fd (-1, (server.send calls fd reply).2) :=
  ⟨rfl, rfl, written.cons (by simp), fun ok => absurd ok (by simp)⟩

theorem handled_verifyIdentity {earlier : List Event}
    (log : server.log = .received fd data :: .connected fd :: earlier)
    (written : Written server.log) :
    Handled server fd (server.verifyIdentity calls fd data) := by
  unfold Server.verifyIdentity
  by_cases named : cString data = identity
  · rw [if_neg (not_not.mpr named)]
    cases fails : (server.send calls fd verified).1 with
    | true =>
        simp only [fails, if_true]
        exact handled_of_replied written
    | false =>
        have sent : calls.sendFails = false := fails
        simp only [fails, Bool.false_eq_true, if_false]
        refine ⟨rfl, rfl, written.cons (by simp), fun _ => ⟨data, earlier, ?_, named⟩⟩
        simp [Server.send, Server.record, log, sent]
  · rw [if_pos named]
    exact handled_of_refused written

theorem handled_selectRoutine {first : Bytes} {earlier : List Event}
    (log : server.log = .received fd data :: .replied fd verified false :: .received fd first ::
      .connected fd :: earlier)
    (named : cString first = identity) (written : Written server.log) :
    Handled server fd (server.selectRoutine calls fd data) := by
  unfold Server.selectRoutine
  by_cases asked : cString data = routines .shell
  · rw [if_pos asked]
    cases fails : (server.send calls fd startRoutine).1 with
    | true =>
        simp only [fails, if_true]
        exact handled_of_replied written
    | false =>
        have sent : calls.sendFails = false := fails
        simp only [fails, Bool.false_eq_true, if_false]
        refine ⟨rfl, rfl, written.cons (by simp), fun _ =>
          ⟨[], first, data, earlier, ?_, named, asked, by simp⟩⟩
        simp [Server.send, Server.record, log, sent]
  · rw [if_neg asked]
    split_ifs <;> exact handled_of_replied written

theorem handled_exchangePackets {earlier : List Event}
    (log : server.log = .received fd data :: earlier) (identified : Identified fd earlier)
    (exchanging : server.state = .exchangePackets) (written : Written server.log) :
    Handled server fd (server.exchangePackets calls fd data) := by
  have received : Identified fd server.log := log ▸ identified.cons (Or.inl ⟨data, rfl⟩)
  unfold Server.exchangePackets
  split
  · dsimp only
    by_cases failed : (server.shell.sopen calls.opening).1 = true
    · rw [if_pos failed]
      exact handled_of_refused written
    · rw [if_neg failed]
      cases calls.write with
      | none => exact handled_of_refused written
      | some taken =>
          refine ⟨rfl, rfl, written.cons ?_, fun _ => ?_⟩
          · intro other bytes same
            cases same
            exact ⟨data, earlier, log, identified⟩
          · have exchanges : Identified fd (.written fd (data.take taken) :: server.log) :=
              received.cons (Or.inr ⟨_, rfl⟩)
            exact exchanging ▸ exchanges
  · exact handled_of_refused written
  · exact handled_of_refused written

/-- Every message of the open connection keeps the session, or closes the connection. -/
theorem handled_onRead (stage : Stage fd server.log server.state) (written : Written server.log) :
    Handled server fd (server.onRead calls fd data) := by
  have received : Written (server.record (.received fd data)).log := written.cons (by simp)
  have handled : Handled (server.record (.received fd data)) fd
      (server.onRead calls fd data) := by
    unfold Server.onRead
    cases state : server.state with
    | verifyIdentity =>
        rw [state] at stage
        obtain ⟨earlier, log⟩ := stage
        exact handled_verifyIdentity (congrArg (Event.received fd data :: ·) log) received
    | selectRoutine =>
        rw [state] at stage
        obtain ⟨first, earlier, log, named⟩ := stage
        exact handled_selectRoutine (congrArg (Event.received fd data :: ·) log) named received
    | exchangePackets =>
        rw [state] at stage
        have log : (server.record (.received fd data)).log = .received fd data :: server.log := rfl
        exact handled_exchangePackets log stage state received
  exact ⟨handled.numConnections, handled.clients, handled.written, handled.stage⟩

end Messages

section Runs

variable {server next : Server} {action : Action} {fd : Int}

theorem session_start (shellClientFd pid input output : Int) :
    Session (.start shellClientFd pid input output) where
  count := rfl
  single := Nat.zero_le 1
  stage _ member := by cases member
  written fd data before suffix := by simp [Server.start] at suffix

/-- One connection is open at most, so that a connection that is open is the only one. -/
theorem Session.clients_eq (session : Session server) (member : fd ∈ server.clients) :
    server.clients = [fd] := by
  have single := session.single
  match clients : server.clients, member with
  | [other], member => simpa [clients, eq_comm] using member
  | first :: second :: others, _ => simp [clients] at single

theorem Session.closeClient {server other : Server} (session : Session server)
    (member : fd ∈ server.clients) (numConnections : other.numConnections = server.numConnections)
    (clients : other.clients = server.clients) (written : Written other.log) :
    Session (other.closeClient fd) := by
  have only := session.clients_eq member
  have closed : (other.closeClient fd).clients = [] := by
    simp [Server.closeClient, clients, only]
  have one : server.numConnections = 1 := by
    apply UInt64.toNat_inj.mp
    simp [session.count, only]
  refine ⟨?_, by simp [closed], by simp [closed], written.cons (by simp)⟩
  rw [closed]
  simp [Server.closeClient, Server.onDisconnect, numConnections, one]

theorem Session.step (session : Session server) (steps : step server action = some next) :
    Session next := by
  cases action with
  | accept fd added =>
      simp only [Comd.step, Option.ite_none_right_eq_some] at steps
      obtain ⟨⟨room, -⟩, steps⟩ := steps
      cases added with
      | false =>
          cases steps
          exact session
      | true =>
          cases steps
          have none : server.numConnections = 0 := by
            apply UInt64.toNat_inj.mp
            have less := UInt64.lt_iff_toNat_lt.mp room
            simp only [maxConnections, UInt64.reduceToNat] at less ⊢
            omega
          have idle : server.clients = [] := by
            apply List.eq_nil_of_length_eq_zero
            rw [← session.count, none]
            rfl
          refine ⟨by simp [none, idle], by simp [idle], ?_, session.written.cons (by simp)⟩
          simp only [idle, List.mem_singleton, forall_eq]
          exact ⟨server.log, rfl⟩
  | message fd data calls =>
      simp only [Comd.step, Option.ite_none_right_eq_some] at steps
      obtain ⟨member, steps⟩ := steps
      have handled : Handled server fd (server.onRead calls fd data) :=
        handled_onRead (session.stage fd member) session.written
      split_ifs at steps with failed
      · cases steps
        exact session.closeClient member handled.numConnections handled.clients handled.written
      · cases steps
        have only := session.clients_eq member
        refine ⟨?_, ?_, ?_, handled.written⟩
        · rw [handled.numConnections, handled.clients]
          exact session.count
        · rw [handled.clients]
          exact session.single
        · rw [handled.clients, only]
          simp only [List.mem_singleton, forall_eq]
          exact handled.stage (by omega)
  | disconnect fd =>
      simp only [Comd.step, Option.ite_none_right_eq_some] at steps
      obtain ⟨member, steps⟩ := steps
      cases steps
      exact session.closeClient member rfl rfl session.written
  | forward output =>
      simp only [Comd.step] at steps
      split_ifs at steps
      · cases output <;> cases steps <;> exact ⟨session.count, session.single, session.stage,
          session.written⟩
      · cases steps
        exact session

/-- Bytes reach the shell's input only while a message of a connection is
handled that identified itself and chose the shell since it was connected. -/
theorem written_authorized {shellClientFd pid input output : Int} {actions : List Action}
    (run : Run step anything (.start shellClientFd pid input output) actions server)
    {data : Bytes} {before : List Event} (written : .written fd data :: before <:+ server.log) :
    Authorized fd before := by
  have session : Session server := by
    apply run.invariant _ (session_start shellClientFd pid input output)
    intro first action next holds _ steps
    exact holds.step steps
  exact session.written fd data before written

namespace Sample

def calls : Calls :=
  ⟨false, ⟨some (3, 4), some (5, 6), 100⟩, false, some 2⟩

/-- A client that leaves after it was identified, and one that gets to the shell. -/
def actions : List Action :=
  [.accept 8 true, .message 8 identity calls, .disconnect 8, .accept 8 true,
    .message 8 identity calls, .message 8 (routines .shell) calls, .message 8 (bytes "ls") calls]

def before : List Event :=
  [.received 8 (bytes "ls"), .replied 8 startRoutine false, .received 8 (routines .shell),
    .replied 8 verified false, .received 8 identity, .connected 8, .disconnected 8,
    .replied 8 verified false, .received 8 identity, .connected 8]

end Sample

theorem written_authorized_sample :
    ∃ server, Run step anything (.start 0 0 0 0) Sample.actions server ∧
      server.log = .written 8 (bytes "ls") :: Sample.before ∧ Authorized 8 Sample.before := by
  obtain ⟨server, run, log⟩ : ∃ server, Run step anything (.start 0 0 0 0) Sample.actions server ∧
      server.log = .written 8 (bytes "ls") :: Sample.before :=
    exists_run_of_exec (by decide +kernel)
  have suffix : .written 8 (bytes "ls") :: Sample.before <:+ server.log := by
    simp only [log, List.suffix_refl]
  exact ⟨server, run, log, written_authorized run suffix⟩

end Runs

end Comd

end Libjaypea
