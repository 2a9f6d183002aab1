import Libjaypea.Bookkeeping
import Libjaypea.ThreadChanges
import Mathlib.Data.Nat.Basic

/-!
# The broadcasting pipe

The read end of one pipe is in the epoll of every thread.  Whoever writes to
the other end has each packet read by one thread, which passes it to `send`
for its own clients.  The server is its threads with what they share: the
table of open descriptors and the pipe.
-/

namespace Libjaypea

namespace EpollServer

/-- `PIPE_BUF`: what `O_DIRECT` keeps together. -/
def pipeBuf : Nat := 4096

structure Packet where
  data : Bytes
  /-- The clients connected since it was written. -/
  audience : List Int
  deriving DecidableEq, Repr

/-- A call of `send`. -/
structure SendCall where
  fd : Int
  /-- What lies in the buffer. -/
  packet : Bytes
  length : UInt64
  deriving DecidableEq, Repr

/-- One pass through the branch of the broadcasting pipe. -/
structure Broadcast where
  packet : Option Packet
  /-- The result of `read`, and the index at which the packet is terminated. -/
  len : Int
  sends : List SendCall
  deriving DecidableEq, Repr

/-- An empty pipe makes `read` fail, which is only reported. -/
def broadcast (clients : List Int) (buffer : Bytes) (packet : Option Packet) : Broadcast :=
  let len : Int := packet.elim (-1) fun packet => packet.data.length
  let filled := packet.elim buffer fun packet =>
    packet.data ++ 0 :: buffer.drop (packet.data.length + 1)
  ⟨packet, len, clients.map fun fd => ⟨fd, filled, UInt64.ofInt len⟩⟩

/-- What the threads of a server have in common. -/
structure Server where
  serverFd : Int
  broadcastFd : Int
  maxConnections : UInt64
  timeoutEpollFd : Nat → Int

def Server.config (server : Server) (id : Nat) : Config :=
  ⟨server.serverFd, server.timeoutEpollFd id, server.broadcastFd, server.maxConnections⟩

structure ServerState where
  threads : List ThreadState
  /-- The open descriptors of the process. -/
  isOpen : Int → Bool
  /-- The packets in the pipe, the oldest first. -/
  pipe : List Packet
  written : List Bytes
  broadcasts : List Broadcast

inductive ServerAction
  /-- A packet is written to `broadcast_fd()`. -/
  | write (data : Bytes)
  /-- A thread takes a batch or handles an event; `buffer` is what lies in its
  `packet` before. -/
  | thread (id : Nat) (action : ThreadAction) (buffer : Bytes)

namespace ServerState

def start (server : Server) (numThreads : Nat) : ServerState where
  threads := (List.range numThreads).map fun id => ThreadState.start (server.config id)
  isOpen fd := fd = server.serverFd ∨ fd = server.broadcastFd ∨
    ∃ id ∈ List.range numThreads, fd = server.timeoutEpollFd id
  pipe := []
  written := []
  broadcasts := []

def connected (state : ServerState) : List Int :=
  state.threads.flatMap fun thread => openClients thread.log

end ServerState

/-- A one-shot event of the pipe is taken only while there is something in it. -/
def Readable (config : Config) (pipe : List Packet) : ThreadAction → Prop
  | .wait batch => ∀ event ∈ batch, event.1 = config.broadcastFd →
      event.2 = .readable ∧ pipe ≠ []
  | .handle _ => True

instance (config : Config) (pipe : List Packet) (action : ThreadAction) :
    Decidable (Readable config pipe action) :=
  match action with
  | .wait batch => inferInstanceAs (Decidable (∀ event ∈ batch, _))
  | .handle _ => inferInstanceAs (Decidable True)

/-- The next event is one of the pipe. -/
def handlesBroadcast (config : Config) (thread : ThreadState) : ThreadAction → Bool
  | .wait _ => false
  | .handle _ =>
      match thread.pending with
      | [] => false
      | (fd, signal) :: _ =>
          signal = .readable && fd ≠ config.timeoutEpollFd && fd = config.broadcastFd

/-- What a step added to the log of its thread. -/
def newEvents (thread next : ThreadState) : List ClientEvent :=
  next.log.take (next.log.length - thread.log.length)

def Packet.leave (packet : Packet) (events : List ClientEvent) : Packet :=
  { packet with audience := packet.audience.filter fun client => .closed client ∉ events }

/-- The packet goes to the clients that the thread tracks. -/
def ServerState.read (state : ServerState) (clients : List Int) (buffer : Bytes) : ServerState :=
  { state with
    pipe := state.pipe.tail
    broadcasts := state.broadcasts ++ [broadcast clients buffer state.pipe.head?] }

def ServerState.serve (config : Config) (state : ServerState) (thread : ThreadState)
    (action : ThreadAction) (buffer : Bytes) : ServerState :=
  if handlesBroadcast config thread action then state.read thread.clients buffer else state

/-- A thread works with the descriptors of the process. -/
def stepServer (server : Server) (state : ServerState) : ServerAction → Option ServerState
  | .write data =>
      if data ≠ [] ∧ data.length ≤ pipeBuf then
        some { state with
          pipe := state.pipe ++ [⟨data, state.connected⟩]
          written := state.written ++ [data] }
      else none
  | .thread id action buffer =>
      state.threads[id]?.bind fun thread =>
        if Readable (server.config id) state.pipe action then
          (stepEvents (server.config id) { thread with isOpen := state.isOpen } action).map
            fun next =>
              let served := state.serve (server.config id) thread action buffer
              { served with
                threads := state.threads.set id next
                isOpen := next.isOpen
                pipe := served.pipe.map fun packet => packet.leave (newEvents thread next) }
        else none

/-- What a call of `send` passes on: bytes, and their number. -/
def SendCall.passed (call : SendCall) : Bytes × Nat :=
  (call.packet.take call.length.toNat, call.length.toNat)

/-- The packet is passed once for every client of its audience, as it was written. -/
def Broadcast.Exact (one : Broadcast) : Prop :=
  0 ≤ one.len ∧ ∀ packet ∈ one.packet, ∀ client ∈ packet.audience,
    (one.sends.filter fun call => call.fd = client).map SendCall.passed =
      [(packet.data, packet.data.length)]

instance (one : Broadcast) : Decidable one.Exact :=
  inferInstanceAs (Decidable (_ ∧ _))

/-- Every packet written was handled or is still there, in order, and what was
handled was passed on exactly. -/
def ServerState.Delivers (state : ServerState) : Prop :=
  state.written = state.broadcasts.filterMap (fun one => one.packet.map Packet.data) ++
      state.pipe.map Packet.data ∧
    ∀ one ∈ state.broadcasts, one.Exact

/-- A thread that comes to the pipe finds a packet there, and tracks all the
clients that are connected since it was written. -/
def Reached (server : Server) (state : ServerState) : ServerAction → Prop
  | .write _ => True
  | .thread id action _ => ∀ thread, state.threads[id]? = some thread →
      handlesBroadcast (server.config id) thread action = true →
      ∃ packet rest, state.pipe = packet :: rest ∧
        ∀ client ∈ packet.audience, client ∈ thread.clients

section Exact

variable {clients : List Int} {buffer : Bytes}

theorem filter_sends (distinct : clients.Nodup) (packet : Option Packet) (client : Int) :
    (broadcast clients buffer packet).sends.filter (fun call => call.fd = client) =
      if client ∈ clients then [⟨client, packet.elim buffer fun packet =>
          packet.data ++ 0 :: buffer.drop (packet.data.length + 1),
        UInt64.ofInt (broadcast clients buffer packet).len⟩] else [] := by
  unfold broadcast
  dsimp only
  rw [List.filter_map]
  have same : (fun call : SendCall => decide (call.fd = client)) ∘ (fun fd : Int =>
      (⟨fd, packet.elim buffer fun packet =>
          packet.data ++ 0 :: buffer.drop (packet.data.length + 1),
        UInt64.ofInt (packet.elim (-1) fun packet => packet.data.length)⟩ : SendCall)) =
      fun fd => decide (fd = client) := rfl
  rw [same, List.filter_eq]
  split
  · rename_i member
    rw [List.count_eq_one_of_mem distinct member]
    rfl
  · rename_i absent
    rw [List.count_eq_zero_of_not_mem absent]
    rfl

/-- Exactly what the clients of the thread get. -/
theorem broadcast_exact_iff (distinct : clients.Nodup) {packet : Option Packet}
    (small : ∀ one ∈ packet, one.data.length ≤ pipeBuf) :
    (broadcast clients buffer packet).Exact ↔
      ∃ one, packet = some one ∧ ∀ client ∈ one.audience, client ∈ clients := by
  cases packet with
  | none =>
      constructor
      · rintro ⟨positive, -⟩
        cases positive
      · rintro ⟨one, impossible, -⟩
        cases impossible
  | some one =>
      have length : (UInt64.ofInt one.data.length).toNat = one.data.length := by
        have bound := small one rfl
        unfold pipeBuf at bound
        rw [UInt64.ofInt, UInt64.toNat_ofNat']
        omega
      have passes : ∀ client, ((broadcast clients buffer (some one)).sends.filter
          fun call => call.fd = client).map SendCall.passed =
          if client ∈ clients then [(one.data, one.data.length)] else [] := by
        intro client
        rw [filter_sends distinct]
        split
        · simp [SendCall.passed, broadcast, length]
        · rfl
      constructor
      · rintro ⟨-, every⟩
        refine ⟨one, rfl, fun client member => ?_⟩
        have sent := every one rfl client member
        rw [passes] at sent
        by_contra absent
        rw [if_neg absent] at sent
        cases sent
      · rintro ⟨_, equal, every⟩
        cases equal
        refine ⟨Int.natCast_nonneg _, ?_⟩
        intro packet same client member
        cases same
        rw [passes, if_pos (every client member)]

end Exact

section Runs

variable {server : Server} {state next : ServerState}

/-- What holds in every state, whoever handles the packets. -/
structure Coherent (state : ServerState) : Prop where
  distinct : ∀ thread ∈ state.threads, thread.clients.Nodup
  small : ∀ packet ∈ state.pipe, packet.data.length ≤ pipeBuf
  ordered : state.written =
    state.broadcasts.filterMap (fun one => one.packet.map Packet.data) ++
      state.pipe.map Packet.data

/-- The broadcasts that went wrong. -/
def flaws (state : ServerState) : Nat :=
  state.broadcasts.countP fun one => ¬ one.Exact

theorem coherent_start (server : Server) (numThreads : Nat) :
    Coherent (.start server numThreads) where
  distinct thread member := by
    obtain ⟨id, -, rfl⟩ := List.mem_map.mp member
    exact List.nodup_nil
  small packet member := by cases member
  ordered := rfl

theorem exists_of_stepServer {id : Nat} {action : ThreadAction} {buffer : Bytes}
    (steps : stepServer server state (.thread id action buffer) = some next) :
    ∃ thread moved, state.threads[id]? = some thread ∧
      Readable (server.config id) state.pipe action ∧
      stepEvents (server.config id) { thread with isOpen := state.isOpen } action = some moved ∧
      next = { state.serve (server.config id) thread action buffer with
        threads := state.threads.set id moved
        isOpen := moved.isOpen
        pipe := (state.serve (server.config id) thread action buffer).pipe.map fun packet =>
          packet.leave (newEvents thread moved) } := by
  obtain ⟨thread, found, rest⟩ := Option.bind_eq_some_iff.mp steps
  dsimp only at rest
  split at rest
  · rename_i readable
    obtain ⟨moved, moves, equal⟩ := Option.map_eq_some_iff.mp rest
    exact ⟨thread, moved, found, readable, moves, equal.symm⟩
  · cases rest

theorem serve_pipe (config : Config) (state : ServerState) (thread : ThreadState)
    (action : ThreadAction) (buffer : Bytes) :
    (state.serve config thread action buffer).pipe <:+ state.pipe := by
  unfold ServerState.serve
  split
  · exact List.tail_suffix _
  · exact List.suffix_rfl

/-- A packet leaves the pipe into the log of the broadcasts. -/
theorem serve_ordered (config : Config) (state : ServerState) (thread : ThreadState)
    (action : ThreadAction) (buffer : Bytes) :
    (state.serve config thread action buffer).broadcasts.filterMap
          (fun one => one.packet.map Packet.data) ++
        (state.serve config thread action buffer).pipe.map Packet.data =
      state.broadcasts.filterMap (fun one => one.packet.map Packet.data) ++
        state.pipe.map Packet.data := by
  unfold ServerState.serve
  split
  · unfold ServerState.read
    cases state.pipe with
    | nil => simp [broadcast]
    | cons packet rest => simp [broadcast]
  · rfl

theorem Coherent.step {action : ServerAction} (coherent : Coherent state)
    (steps : stepServer server state action = some next) : Coherent next := by
  cases action with
  | write data =>
      unfold stepServer at steps
      rw [Option.ite_none_right_eq_some] at steps
      obtain ⟨⟨-, fits⟩, equal⟩ := steps
      cases equal
      refine ⟨coherent.distinct, ?_, ?_⟩
      · intro packet member
        rcases List.mem_append.mp member with old | new
        · exact coherent.small packet old
        · cases List.mem_singleton.mp new
          exact fits
      · simp [coherent.ordered]
  | thread id action buffer =>
      obtain ⟨thread, moved, found, -, moves, rfl⟩ := exists_of_stepServer steps
      refine ⟨?_, ?_, ?_⟩
      · intro one member
        rcases List.mem_or_eq_of_mem_set member with old | rfl
        · exact coherent.distinct one old
        · apply (ThreadState.stepEvents_keeps moves).1
          exact coherent.distinct thread (List.mem_of_getElem? found)
      · intro packet member
        obtain ⟨old, there, rfl⟩ := List.mem_map.mp member
        exact coherent.small old ((serve_pipe _ state thread action buffer).subset there)
      · have same : ∀ packets : List Packet, (packets.map fun packet =>
            packet.leave (newEvents thread moved)).map Packet.data = packets.map Packet.data := by
          intro packets
          rw [List.map_map]
          rfl
        have written : (state.serve (server.config id) thread action buffer).written =
            state.written := by
          unfold ServerState.serve
          split <;> rfl
        dsimp only
        rw [written, same, serve_ordered]
        exact coherent.ordered

/-- A step adds a flaw exactly when it comes to the pipe too late, or to the
packet of other clients. -/
theorem flaws_eq_iff {action : ServerAction} (coherent : Coherent state)
    (steps : stepServer server state action = some next) :
    flaws state ≤ flaws next ∧ (flaws next = flaws state ↔ Reached server state action) := by
  cases action with
  | write data =>
      unfold stepServer at steps
      rw [Option.ite_none_right_eq_some] at steps
      cases steps.2
      exact ⟨Nat.le_refl _, iff_of_true rfl trivial⟩
  | thread id action buffer =>
      obtain ⟨thread, moved, found, -, moves, rfl⟩ := exists_of_stepServer steps
      unfold flaws ServerState.serve
      by_cases handles : handlesBroadcast (server.config id) thread action = true
      · have reached : Reached server state (.thread id action buffer) ↔
            (broadcast thread.clients buffer state.pipe.head?).Exact := by
          rw [broadcast_exact_iff (coherent.distinct thread (List.mem_of_getElem? found))
            fun one first => coherent.small one (List.mem_of_head? first)]
          constructor
          · intro reached
            obtain ⟨packet, rest, pipe, tracked⟩ := reached thread found handles
            exact ⟨packet, by rw [pipe]; rfl, tracked⟩
          · rintro ⟨packet, first, tracked⟩ other there -
            cases found.symm.trans there
            obtain ⟨rest, pipe⟩ := List.head?_eq_some_iff.mp first
            exact ⟨packet, rest, pipe, tracked⟩
        rw [reached]
        simp only [handles, if_true, ServerState.read, List.countP_append, List.countP_singleton]
        by_cases exactly : (broadcast thread.clients buffer state.pipe.head?).Exact
        · simp [exactly]
        · simp [exactly]
      · simp only [handles]
        refine ⟨Nat.le_refl _, iff_of_true rfl ?_⟩
        intro other there comes
        cases found.symm.trans there
        exact absurd comes handles

theorem Coherent.delivers_iff_flawless (coherent : Coherent state) :
    state.Delivers ↔ flaws state = 0 := by
  rw [flaws, List.countP_eq_zero]
  simp only [decide_eq_true_eq, not_not]
  exact and_iff_right coherent.ordered

theorem coherent_of_run {numThreads : Nat} {actions : List ServerAction} {last : ServerState}
    (run : Transitions.Run (stepServer server) Transitions.anything (.start server numThreads)
      actions last) : Coherent last := by
  have preserved : ∀ first action next, Coherent first → Transitions.anything first action →
      stepServer server first action = some next → Coherent next :=
    fun first action next coherent _ steps => coherent.step steps
  exact run.invariant preserved (coherent_start server numThreads)

/-- A run is free of flaws exactly if all its steps are. -/
theorem flawless_iff {numThreads : Nat} {actions : List ServerAction} {last : ServerState}
    (run : Transitions.Run (stepServer server) Transitions.anything (.start server numThreads)
      actions last) :
    flaws last = 0 ↔ Transitions.Run (stepServer server) (Reached server)
      (.start server numThreads) actions last := by
  have none_yet : flaws (.start server numThreads) = 0 := rfl
  rw [← none_yet]
  exact run.keeps_measure_iff (fun first action next holds steps => holds.step steps)
    (fun first action next holds steps => (flaws_eq_iff holds steps).1)
    (fun first action next holds steps => (flaws_eq_iff holds steps).2)
    (coherent_start server numThreads)

section OneThread

/-- The thread's events are those that it is made for. -/
def OrderlyServer (server : Server) (state : ServerState) : ServerAction → Prop
  | .write _ => True
  | .thread id action _ => ∀ thread, state.threads[id]? = some thread →
      Orderly (server.config id) { thread with isOpen := state.isOpen } action

/-- With one thread, an event of the pipe in its batch means that the packet is
still there, and all who hear of it are the thread's own clients. -/
structure Alone (server : Server) (state : ServerState) (thread : ThreadState) : Prop where
  only : state.threads = [thread]
  sound : Sound (server.config 0) { thread with isOpen := state.isOpen }
  batch : (thread.pending.map Prod.fst).Nodup
  ready : server.broadcastFd ∈ thread.pending.map Prod.fst → state.pipe ≠ []
  hears : ∀ packet ∈ state.pipe, ∀ client ∈ packet.audience, client ∈ openClients thread.log

theorem mem_openClients_append {client : Int} {events earlier : List ClientEvent}
    (connected : client ∈ openClients earlier) (stays : .closed client ∉ events) :
    client ∈ openClients (events ++ earlier) := by
  induction events with
  | nil => exact connected
  | cons event events ih =>
      rw [List.mem_cons, not_or] at stays
      have kept := ih stays.2
      cases event with
      | accepted fd => exact List.mem_cons_of_mem fd kept
      | closed fd =>
          apply (List.mem_erase_of_ne ?_).mpr kept
          rintro rfl
          exact stays.1 rfl
      | disconnected fd => exact kept

theorem mem_openClients_of_newEvents {client : Int} {thread moved : ThreadState}
    (log : thread.log <:+ moved.log) (connected : client ∈ openClients thread.log)
    (stays : .closed client ∉ newEvents thread moved) : client ∈ openClients moved.log := by
  obtain ⟨events, equal⟩ := log
  have fresh : newEvents thread moved = events := by
    unfold newEvents
    rw [← equal, List.length_append, Nat.add_sub_cancel, List.take_left]
  rw [← equal]
  exact mem_openClients_append connected (fresh ▸ stays)

theorem alone_start (server : Server) :
    Alone server (.start server 1) (ThreadState.start (server.config 0)) where
  only := rfl
  sound := by
    have same : (ServerState.start server 1).isOpen =
        (ThreadState.start (server.config 0)).isOpen := by
      funext fd
      simp [ServerState.start, ThreadState.start, Server.config, or_comm]
    exact (sound_start (server.config 0)).of_same rfl rfl rfl same rfl fun _ entry => entry
  batch := List.nodup_nil
  ready member := by cases member
  hears packet member := by cases member

theorem Alone.eq_of_found {thread one : ThreadState} (alone : Alone server state thread) {id : Nat}
    (found : state.threads[id]? = some one) : id = 0 ∧ one = thread := by
  rw [alone.only, List.getElem?_singleton] at found
  split at found
  · rename_i zero
    exact ⟨zero, (Option.some.inj found).symm⟩
  · cases found

theorem Alone.write {thread : ThreadState} (alone : Alone server state thread) {data : Bytes}
    (steps : stepServer server state (.write data) = some next) : Alone server next thread := by
  unfold stepServer at steps
  rw [Option.ite_none_right_eq_some] at steps
  obtain ⟨-, equal⟩ := steps
  cases equal
  refine ⟨alone.only, alone.sound, alone.batch, ?_, ?_⟩
  · exact fun _ => List.append_ne_nil_of_right_ne_nil _ (List.cons_ne_nil _ _)
  · intro packet member client listens
    rcases List.mem_append.mp member with old | new
    · exact alone.hears packet old client listens
    · cases List.mem_singleton.mp new
      rw [ServerState.connected, alone.only, List.flatMap_singleton] at listens
      exact listens

/-- What is left of the pipe for the thread, once its event is handled. -/
theorem Alone.served {thread moved : ThreadState} (alone : Alone server state thread)
    {action : ThreadAction} (buffer : Bytes)
    (readable : Readable (server.config 0) state.pipe action)
    (moves : stepEvents (server.config 0) { thread with isOpen := state.isOpen } action = some moved) :
    (moved.pending.map Prod.fst).Nodup ∧ (server.broadcastFd ∈ moved.pending.map Prod.fst →
      (state.serve (server.config 0) thread action buffer).pipe ≠ []) := by
  unfold ServerState.serve
  cases eventStep_of_stepEvents moves with
  | wait idle distinct isArmed =>
      refine ⟨distinct, fun member => ?_⟩
      obtain ⟨event, there, same⟩ := List.mem_map.mp member
      exact (readable event there same).2
  | @handle results fd signal rest next pending handles =>
      have pending : thread.pending = (fd, signal) :: rest := pending
      have left : moved.pending = rest := (ThreadState.follows_handleEvent handles).pending
      have batch := alone.batch
      have ready := alone.ready
      rw [pending, List.map_cons] at batch ready
      rw [List.nodup_cons] at batch
      rw [left]
      refine ⟨batch.2, fun member => ?_⟩
      have other : fd ≠ server.broadcastFd := by
        rintro rfl
        exact batch.1 member
      have passes : handlesBroadcast (server.config 0) thread (.handle results) = false := by
        simp [handlesBroadcast, pending, Server.config, other]
      rw [passes]
      exact ready (List.mem_cons_of_mem _ member)

theorem Alone.thread {thread : ThreadState} (alone : Alone server state thread) {id : Nat}
    {action : ThreadAction} {buffer : Bytes}
    (orderly : OrderlyServer server state (.thread id action buffer))
    (steps : stepServer server state (.thread id action buffer) = some next) :
    ∃ moved, Alone server next moved := by
  obtain ⟨one, moved, found, readable, moves, rfl⟩ := exists_of_stepServer steps
  obtain ⟨rfl, rfl⟩ := alone.eq_of_found found
  obtain ⟨distinct, ready⟩ := alone.served buffer readable moves
  have log : one.log <:+ moved.log := (ThreadState.stepEvents_keeps moves).2
  refine ⟨moved, ?_, ?_, distinct, ?_, ?_⟩
  · rw [alone.only]
    rfl
  · exact alone.sound.stepEvents (orderly one found) moves
  · intro member empty
    exact ready member (List.map_eq_nil_iff.mp empty)
  · intro packet member client listens
    obtain ⟨old, there, rfl⟩ := List.mem_map.mp member
    obtain ⟨heard, stays⟩ := List.mem_filter.mp listens
    have connected := alone.hears old ((serve_pipe _ state one action buffer).subset there) client
      heard
    have kept : .closed client ∉ newEvents one moved := by simpa using stays
    exact mem_openClients_of_newEvents log connected kept

theorem Alone.reached {thread : ThreadState} (alone : Alone server state thread)
    (action : ServerAction) : Reached server state action := by
  cases action with
  | write data => trivial
  | thread id action buffer =>
      intro one found comes
      obtain ⟨rfl, rfl⟩ := alone.eq_of_found found
      have taken : server.broadcastFd ∈ one.pending.map Prod.fst := by
        unfold handlesBroadcast at comes
        split at comes
        · cases comes
        · split at comes
          · cases comes
          · rename_i fd signal rest pending
            simp only [Bool.and_eq_true, decide_eq_true_eq] at comes
            rw [pending, ← show fd = server.broadcastFd from comes.2]
            exact List.mem_cons_self
      obtain ⟨packet, rest, pipe⟩ := List.exists_cons_of_ne_nil (alone.ready taken)
      refine ⟨packet, rest, pipe, fun client listens => ?_⟩
      apply (alone.sound.clients client).mpr
      exact alone.hears packet (pipe ▸ List.mem_cons_self) client listens

/-- A server with one thread delivers every packet. -/
theorem delivers_of_one_thread {actions : List ServerAction} {last : ServerState}
    (run : Transitions.Run (stepServer server) (OrderlyServer server) (.start server 1) actions
      last) : last.Delivers := by
  have preserved : ∀ first action next, (∃ thread, Alone server first thread) →
      OrderlyServer server first action → stepServer server first action = some next →
      ∃ thread, Alone server next thread := by
    rintro first action next ⟨thread, alone⟩ orderly steps
    cases action with
    | write data => exact ⟨thread, alone.write steps⟩
    | thread id action buffer => exact alone.thread orderly steps
  have permits : ∀ state action, (∃ thread, Alone server state thread) →
      OrderlyServer server state action → Reached server state action := by
    rintro state action ⟨thread, alone⟩ -
    exact alone.reached action
  have free := run.mono fun _ _ _ => trivial
  rw [(coherent_of_run free).delivers_iff_flawless, flawless_iff free]
  exact run.strengthen preserved permits ⟨_, alone_start server⟩

end OneThread

/-- Every packet is delivered exactly if each is handled by a thread that is in
time and has all its clients. -/
theorem delivers_iff {numThreads : Nat} {actions : List ServerAction} {last : ServerState}
    (run : Transitions.Run (stepServer server) Transitions.anything (.start server numThreads)
      actions last) :
    last.Delivers ↔ Transitions.Run (stepServer server) (Reached server) (.start server numThreads)
      actions last := by
  rw [(coherent_of_run run).delivers_iff_flawless]
  exact flawless_iff run

end Runs

namespace Sample

def server : Server := ⟨3, 6, 2, fun id => 20 + id⟩

/-- The first thread accepts a client, and a packet is written. -/
def greets : List ServerAction :=
  [.thread 0 (.wait [(3, .readable)]) [], .thread 0 (.handle oneClient) [], .write (bytes "hi")]

/-- The first thread takes the event of the pipe. -/
def served : List ServerAction :=
  greets ++ [.thread 0 (.wait [(6, .readable)]) [], .thread 0 (.handle calm) []]

/-- Both threads take it, and the second one is faster. -/
def missed : List ServerAction :=
  greets ++ [.thread 0 (.wait [(6, .readable)]) [], .thread 1 (.wait [(6, .readable)]) [],
    .thread 1 (.handle calm) [], .thread 0 (.handle calm) (bytes "old")]

end Sample

/-- The client of the thread that is served gets what was written. -/
theorem delivers_iff_served : ∃ last,
    Transitions.Run (stepServer Sample.server) Transitions.anything (.start Sample.server 2)
      Sample.served last ∧
    last.broadcasts = [⟨some ⟨bytes "hi", [10]⟩, 2, [⟨10, [104, 105, 0], 2⟩]⟩] ∧
    last.Delivers := by
  obtain ⟨last, run, broadcasts⟩ : ∃ last,
      Transitions.Run (stepServer Sample.server) (Reached Sample.server) (.start Sample.server 2)
        Sample.served last ∧
      last.broadcasts = [⟨some ⟨bytes "hi", [10]⟩, 2, [⟨10, [104, 105, 0], 2⟩]⟩] := by
    refine ⟨_, .cons ?_ rfl (.cons ?_ rfl (.cons trivial rfl (.cons ?_ rfl (.cons ?_ rfl
      (.nil _))))), rfl⟩
    · rintro thread - comes
      cases comes
    · rintro thread found comes
      cases found
      cases comes
    · rintro thread - comes
      cases comes
    · rintro thread found -
      cases found
      exact ⟨_, _, rfl, fun client member => member⟩
  have free := run.mono fun _ _ _ => trivial
  exact ⟨last, free, broadcasts, (delivers_iff free).mpr run⟩

/-- The client hears nothing, and what the slower thread passes on has a
length of -1. -/
theorem exists_not_delivers : ∃ last,
    Transitions.Run (stepServer Sample.server) Transitions.anything (.start Sample.server 2)
      Sample.missed last ∧
    last.broadcasts = [⟨some ⟨bytes "hi", [10]⟩, 2, []⟩,
      ⟨none, -1, [⟨10, bytes "old", 18446744073709551615⟩]⟩] ∧
    ¬ last.Delivers := by
  have shows : (Transitions.exec (stepServer Sample.server) (.start Sample.server 2)
      Sample.missed).map ServerState.broadcasts = some [⟨some ⟨bytes "hi", [10]⟩, 2, []⟩,
        ⟨none, -1, [⟨10, bytes "old", 18446744073709551615⟩]⟩] := by
    decide +kernel
  obtain ⟨last, run, broadcasts⟩ := Transitions.exists_run_of_exec shows
  refine ⟨last, run, broadcasts, ?_⟩
  rintro ⟨-, every⟩
  rw [broadcasts] at every
  have positive := (every _ (List.mem_cons_of_mem _ List.mem_cons_self)).1
  exact absurd positive (by decide)

end EpollServer

end Libjaypea
