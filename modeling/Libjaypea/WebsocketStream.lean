import Libjaypea.Broadcast
import Libjaypea.Websocket

/-!
# What is written to a websocket client

`send` frames what it is given once the handshake of the client is complete,
and passes it on as it is before.  The response of the handshake goes out as
it is, and so does a broadcast to a client that has not asked yet.
-/

namespace Libjaypea

namespace EpollServer

/-- The value of `send`, and what reached the connection. -/
structure Sent where
  failed : Bool
  written : Bytes

/-- `len` is the result of `write`; that not all was taken is only reported. -/
def send (data : Bytes) : Option Nat → Sent
  | none => ⟨true, []⟩
  | some len => ⟨false, data.take len⟩

end EpollServer

namespace TlsEpollServer

/-- What `SSL_get_error` says about a call of `SSL_write`. -/
inductive SslWrite
  | none (len : Nat)
  | wantWrite
  | zeroReturn
  | syscall
  | other

/-- The results of the calls of `SSL_write`, as those of `recv`; `gone` bytes
reach the client before a failure. -/
def send (data : Bytes) (gone diff : Nat) : List (SslWrite × Nat) → Option EpollServer.Sent
  | [] => if diff > 10000 then some ⟨true, data.take gone⟩ else none
  | (result, elapsed) :: later =>
      if diff > 10000 then some ⟨true, data.take gone⟩
      else
        match result with
        | .wantWrite => send data gone elapsed later
        | .none len => some ⟨false, data.take len⟩
        | _ => some ⟨true, data.take gone⟩

end TlsEpollServer

/-- The base class of a websocket server. -/
structure Transport where
  Result : Type
  send : Bytes → Result → Option EpollServer.Sent

namespace Transport

def plain : Transport :=
  ⟨Option Nat, fun data len => some (EpollServer.send data len)⟩

def tls : Transport :=
  ⟨Nat × List (TlsEpollServer.SslWrite × Nat),
    fun data result => TlsEpollServer.send data result.1 0 result.2⟩

/-- Everything is written, or the call fails with nothing written. -/
def Whole (transport : Transport) (data : Bytes) (result : transport.Result) : Prop :=
  ∀ sent, transport.send data result = some sent →
    sent.written = data ∨ sent.failed = true ∧ sent.written = []

theorem whole_plain_iff {data : Bytes} {result : Option Nat} :
    plain.Whole data result ↔ ∀ len, result = some len → data.length ≤ len := by
  cases result with
  | none =>
      refine iff_of_true ?_ fun len impossible => by cases impossible
      intro sent sends
      cases sends
      exact .inr ⟨rfl, rfl⟩
  | some taken =>
      constructor
      · rintro whole len equal
        cases equal
        rcases whole _ rfl with all | ⟨fails, -⟩
        · have lengths := congrArg List.length all
          unfold EpollServer.send at lengths
          rw [List.length_take] at lengths
          omega
        · cases fails
      · intro enough sent sends
        cases sends
        exact .inl (List.take_of_length_le (enough taken rfl))

/-- Without partial writes, `SSL_write` is whole unless a part goes out before a failure. -/
theorem whole_tls {data : Bytes} {tries : List (TlsEpollServer.SslWrite × Nat)}
    (complete : ∀ attempt ∈ tries, ∀ len, attempt.1 = .none len → data.length ≤ len) :
    tls.Whole data (0, tries) := by
  have every : ∀ diff sent, TlsEpollServer.send data 0 diff tries = some sent →
      sent.written = data ∨ sent.failed = true ∧ sent.written = [] := by
    induction tries with
    | nil =>
        intro diff sent sends
        unfold TlsEpollServer.send at sends
        rw [Option.ite_none_right_eq_some] at sends
        cases sends.2
        exact .inr ⟨rfl, rfl⟩
    | cons attempt later ih =>
        intro diff sent sends
        obtain ⟨result, elapsed⟩ := attempt
        unfold TlsEpollServer.send at sends
        split at sends
        · cases sends
          exact .inr ⟨rfl, rfl⟩
        · cases result with
          | wantWrite =>
              exact ih (fun other member => complete other (List.mem_cons_of_mem _ member)) _ _ sends
          | none len =>
              cases sends
              exact .inl (List.take_of_length_le (complete _ List.mem_cons_self len rfl))
          | zeroReturn =>
              cases sends
              exact .inr ⟨rfl, rfl⟩
          | syscall =>
              cases sends
              exact .inr ⟨rfl, rfl⟩
          | other =>
              cases sends
              exact .inr ⟨rfl, rfl⟩
  exact every 0

end Transport

namespace Websocket

/-- There is no length field for more than 65535 bytes. -/
def createFrame (data : Bytes) : Bytes :=
  let dataLength := data.length
  let lengthField :=
    if dataLength ≤ 125 then [UInt8.ofNat dataLength]
    else if dataLength ≤ 65535 then [126, UInt8.ofNat (dataLength / 256), UInt8.ofNat dataLength]
    else []
  0x81 :: (lengthField ++ data)

def requestKey (data : Memory) (heap : Nat → Memory) (fuel : Nat) : Option Bytes :=
  (parseHttpRequest data heap 1 (.new .object) fuel).bind fun parsed =>
    if parsed.2.hasObj (bytes "Sec-WebSocket-Key") .string then
      parsed.2.getStr (bytes "Sec-WebSocket-Key")
    else none

/-- Without a handshake yet, `recv` answers a request with a key, and nothing else. -/
theorem recv_handshake {onRead : Bytes → Int} {acceptHash : Bytes → Bytes} {sendFails : Bool}
    {data : Memory} {dataLength : Nat} {heap : Nat → Memory} {fuel : Nat} {received : Received}
    (receives : recv onRead acceptHash sendFails false data dataLength heap fuel = some received) :
    match requestKey data heap fuel with
    | none => received.sent = none ∧ received.result = -1 ∧
        received.clientHandshakeComplete = false
    | some key => received.sent = some (getHandshakeResponse acceptHash key) ∧
        received.result = (if sendFails then -1 else 1) ∧
        received.clientHandshakeComplete = !sendFails := by
  unfold recv at receives
  rw [if_neg Bool.false_ne_true] at receives
  obtain ⟨parsed, parses, rfl⟩ := Option.map_eq_some_iff.mp receives
  unfold requestKey
  rw [parses, Option.bind_some]
  cases has : parsed.2.hasObj (bytes "Sec-WebSocket-Key") .string with
  | false => cases found : parsed.2.getStr (bytes "Sec-WebSocket-Key") <;> simp
  | true =>
      cases found : parsed.2.getStr (bytes "Sec-WebSocket-Key") with
      | none => simp
      | some key => cases sendFails <;> simp

theorem recv_of_requestKey (onRead : Bytes → Int) (acceptHash : Bytes → Bytes) (sendFails : Bool)
    {data : Memory} (dataLength : Nat) {heap : Nat → Memory} {fuel : Nat} {key : Bytes}
    (asks : requestKey data heap fuel = some key) :
    recv onRead acceptHash sendFails false data dataLength heap fuel =
      some ⟨none, if sendFails then -1 else 1, !sendFails,
        some (getHandshakeResponse acceptHash key)⟩ := by
  obtain ⟨parsed, parses, has⟩ := Option.bind_eq_some_iff.mp asks
  rw [Option.ite_none_right_eq_some] at has
  simp only [recv, parses, Option.map_some, has.1, has.2]
  cases sendFails <;> rfl

end Websocket

namespace WebsocketServer

open EpollServer Websocket

/-- An accepted client. -/
structure Connection where
  /-- The keys of its handshake requests. -/
  keys : List Bytes
  written : Bytes

structure State where
  clientHandshakeComplete : Int → Bool
  connections : Int → Option Connection
  closed : List Connection

def State.start : State := ⟨fun _ => false, fun _ => none, []⟩

inductive Action (transport : Transport)
  /-- `accept`, and `accept_continuation`, which may want it closed. -/
  | accept (fd : Int) (rejected : Bool)
  /-- Something is read from the client. -/
  | recv (fd : Int) (data : Memory) (dataLength : Nat) (heap : Nat → Memory) (fuel : Nat)
      (result : transport.Result)
  /-- The application calls `send` for a client that completed its handshake. -/
  | send (call : SendCall) (result : transport.Result)
  /-- The branch of the broadcasting pipe, in a thread with these clients. -/
  | broadcast (clients : List Int) (buffer : Bytes) (packet : Option EpollServer.Packet)
      (results : Int → transport.Result)
  | close (fd : Int)

/-- What `send` passes on; a string of `2 ^ 63` bytes cannot be made. -/
def passed (handshakeComplete : Bool) (call : SendCall) : Option Bytes :=
  if handshakeComplete then
    if call.length.toNat < 2 ^ 63 then some (createFrame (call.packet.take call.length.toNat))
    else none
  else some (call.packet.take call.length.toNat)

namespace State

/-- The client, if there is one, is written the bytes. -/
def wrote (state : State) (fd : Int) (written : Bytes) : State :=
  { state with
    connections := Function.update state.connections fd
      ((state.connections fd).map fun connection =>
        { connection with written := connection.written ++ written }) }

/-- `send` of the class that the server is derived from. -/
def write {transport : Transport} (state : State) (fd : Int) (data : Bytes)
    (result : transport.Result) : Option (Bool × State) :=
  (transport.send data result).map fun sent => (sent.failed, state.wrote fd sent.written)

def send {transport : Transport} (state : State) (call : SendCall) (result : transport.Result) :
    Option (Bool × State) :=
  (passed (state.clientHandshakeComplete call.fd) call).bind fun data =>
    state.write call.fd data result

/-- Errors of `send` are thrown away. -/
def sendAll {transport : Transport} (results : Int → transport.Result) :
    List SendCall → State → Option State
  | [], state => some state
  | call :: calls, state =>
      (state.send call (results call.fd)).bind fun sent => sendAll results calls sent.2

def close (state : State) (fd : Int) : State :=
  { state with
    connections := Function.update state.connections fd none
    closed := state.closed ++ (state.connections fd).toList }

/-- The request is noted. -/
def request (state : State) (fd : Int) (key : Bytes) : State :=
  { state with
    connections := Function.update state.connections fd
      ((state.connections fd).map fun connection =>
        { connection with keys := connection.keys ++ [key] }) }

/-- The flag is set, and a negative result closes the client. -/
def finish (state : State) (fd : Int) (received : Received) : State :=
  let marked := { state with
    clientHandshakeComplete := Function.update state.clientHandshakeComplete fd
      received.clientHandshakeComplete }
  if received.result < 0 then marked.close fd else marked

end State

variable {transport : Transport} (onRead : Int → Bytes → Int) (acceptHash : Bytes → Bytes)

/-- What is read goes to `Websocket::recv`, with the value of its `send`. -/
def State.recv (state : State) (fd : Int) (data : Memory)
    (dataLength : Nat) (heap : Nat → Memory) (fuel : Nat) (result : transport.Result) :
    Option State :=
  let complete := state.clientHandshakeComplete fd
  let receives := fun sendFails =>
    Websocket.recv (onRead fd) acceptHash sendFails complete data dataLength heap fuel
  if complete then (receives false).map (state.finish fd)
  else
    match requestKey data heap fuel with
    | none => (receives false).map (state.finish fd)
    | some key =>
        -- `send` passes the response on as it is, the handshake not being complete.
        ((state.request fd key).write fd (getHandshakeResponse acceptHash key) result).bind
          fun sent => (receives sent.1).map (sent.2.finish fd)

def step (state : State) : Action transport → Option State
  | .accept fd rejected =>
      if state.connections fd = none then
        some { state with
          clientHandshakeComplete := Function.update state.clientHandshakeComplete fd false
          connections := Function.update state.connections fd
            (if rejected then none else some ⟨[], []⟩) }
      else none
  | .recv fd data dataLength heap fuel result =>
      if state.connections fd = none then none
      else state.recv onRead acceptHash fd data dataLength heap fuel result
  | .send call result =>
      if state.connections call.fd ≠ none ∧ state.clientHandshakeComplete call.fd = true then
        (state.send call result).map Prod.snd
      else none
  | .broadcast clients buffer packet results =>
      state.sendAll results (broadcast clients buffer packet).sends
  | .close fd => if state.connections fd = none then none else some (state.close fd)

/-- The response to one of the client's own requests, and frames behind it. -/
def Connection.Framed (connection : Connection) : Prop :=
  ∃ key ∈ connection.keys, ∃ payloads : List Bytes,
    connection.written = getHandshakeResponse acceptHash key ++ payloads.flatMap createFrame

/-- Nothing comes before the response, and only frames come after it. -/
def Connection.Proper (connection : Connection) : Prop :=
  connection.written = [] ∨ connection.Framed acceptHash

def State.Proper (state : State) : Prop :=
  (∀ fd connection, state.connections fd = some connection → connection.Proper acceptHash) ∧
    ∀ connection ∈ state.closed, connection.Proper acceptHash

/-- Everything that is sent goes out whole or not at all, and a broadcast finds
every connected client of its thread with the handshake complete. -/
def Awaited (state : State) : Action transport → Prop
  | .accept _ _ => True
  | .recv fd data _ heap fuel result => state.clientHandshakeComplete fd = false →
      ∀ key, requestKey data heap fuel = some key →
        transport.Whole (getHandshakeResponse acceptHash key) result
  | .send call result => ∀ frame, passed true call = some frame → transport.Whole frame result
  | .broadcast clients buffer packet results =>
      ∀ call ∈ (broadcast clients buffer packet).sends, state.connections call.fd ≠ none →
        state.clientHandshakeComplete call.fd = true ∧
          ∀ frame, passed true call = some frame → transport.Whole frame (results call.fd)
  | .close _ => True

/-- What was written before and after the handshake. -/
def Connection.Stage : Bool → Connection → Prop
  | false, connection => connection.written = []
  | true, connection => connection.Framed acceptHash

/-- Every connection is proper, and the flag of an open one tells whether it
has its response. -/
structure Flagged (state : State) : Prop where
  stage : ∀ fd connection, state.connections fd = some connection →
    connection.Stage acceptHash (state.clientHandshakeComplete fd)
  closed : ∀ connection ∈ state.closed, connection.Proper acceptHash

section Steps

variable {acceptHash} {state next : State}

theorem flagged_start : Flagged acceptHash State.start where
  stage fd connection found := by cases found
  closed connection member := by cases member

theorem Connection.Stage.proper {complete : Bool} {connection : Connection}
    (stage : connection.Stage acceptHash complete) : connection.Proper acceptHash := by
  cases complete with
  | false => exact .inl stage
  | true => exact .inr stage

/-- What changes at one descriptor is to be looked at there only. -/
theorem Flagged.of_single (flagged : Flagged acceptHash state) (fd : Int)
    (connections : ∀ other, other ≠ fd → next.connections other = state.connections other)
    (flags : ∀ other, other ≠ fd →
      next.clientHandshakeComplete other = state.clientHandshakeComplete other)
    (closed : ∀ connection ∈ next.closed, connection.Proper acceptHash)
    (here : ∀ connection, next.connections fd = some connection →
      connection.Stage acceptHash (next.clientHandshakeComplete fd)) :
    Flagged acceptHash next := by
  refine ⟨?_, closed⟩
  intro other connection found
  by_cases same : other = fd
  · subst same
    exact here connection found
  · rw [connections other same] at found
    rw [flags other same]
    exact flagged.stage other connection found

theorem Flagged.accept (flagged : Flagged acceptHash state) (fd : Int) (rejected : Bool) :
    Flagged acceptHash { state with
      clientHandshakeComplete := Function.update state.clientHandshakeComplete fd false
      connections := Function.update state.connections fd
        (if rejected then none else some ⟨[], []⟩) } := by
  apply flagged.of_single fd
  · exact fun other different => Function.update_of_ne different ..
  · exact fun other different => Function.update_of_ne different ..
  · exact flagged.closed
  · intro connection found
    dsimp only at found ⊢
    rw [Function.update_self] at found ⊢
    cases rejected with
    | true => cases found
    | false =>
        cases found
        exact rfl

/-- A client is closed when what was written to it so far is proper. -/
theorem Flagged.closeWith (flagged : Flagged acceptHash state) (fd : Int)
    (connections : ∀ other, other ≠ fd → next.connections other = state.connections other)
    (flags : ∀ other, other ≠ fd →
      next.clientHandshakeComplete other = state.clientHandshakeComplete other)
    (closed : next.closed = state.closed)
    (proper : ∀ connection, next.connections fd = some connection →
      connection.Proper acceptHash) : Flagged acceptHash (next.close fd) := by
  apply flagged.of_single fd
  · intro other different
    exact (Function.update_of_ne different ..).trans (connections other different)
  · exact flags
  · intro connection member
    rcases List.mem_append.mp member with old | new
    · exact flagged.closed connection (closed ▸ old)
    · exact proper connection (Option.mem_toList.mp new)
  · intro connection found
    have gone : (next.close fd).connections fd = none := Function.update_self ..
    rw [gone] at found
    cases found

theorem Flagged.close (flagged : Flagged acceptHash state) (fd : Int) :
    Flagged acceptHash (state.close fd) :=
  flagged.closeWith fd (fun _ _ => rfl) (fun _ _ => rfl) rfl
    fun connection found => (flagged.stage fd connection found).proper

/-- What `write` does to the client it is for. -/
theorem exists_of_write {fd : Int} {data : Bytes} {result : transport.Result} {failed : Bool}
    (writes : state.write fd data result = some (failed, next)) :
    ∃ sent, transport.send data result = some sent ∧ failed = sent.failed ∧
      next.clientHandshakeComplete = state.clientHandshakeComplete ∧
      next.closed = state.closed ∧
      next.connections = Function.update state.connections fd
        ((state.connections fd).map fun connection =>
          { connection with written := connection.written ++ sent.written }) := by
  obtain ⟨sent, sends, equal⟩ := Option.map_eq_some_iff.mp writes
  cases equal
  exact ⟨sent, sends, rfl, rfl, rfl, rfl⟩

/-- A frame for a client that has its response, or is not there. -/
theorem Flagged.send (flagged : Flagged acceptHash state) {call : SendCall}
    {result : transport.Result} {failed : Bool}
    (awaited : state.connections call.fd ≠ none →
      state.clientHandshakeComplete call.fd = true ∧
        ∀ frame, passed true call = some frame → transport.Whole frame result)
    (sends : state.send call result = some (failed, next)) :
    Flagged acceptHash next ∧ next.clientHandshakeComplete = state.clientHandshakeComplete ∧
      ∀ fd, next.connections fd = none ↔ state.connections fd = none := by
  obtain ⟨data, passes, writes⟩ := Option.bind_eq_some_iff.mp sends
  obtain ⟨sent, transmits, -, flags, closed, connections⟩ := exists_of_write writes
  refine ⟨?_, flags, ?_⟩
  · apply flagged.of_single call.fd
    · intro other different
      rw [connections, Function.update_of_ne different]
    · intro other different
      rw [flags]
    · rw [closed]
      exact flagged.closed
    · intro connection found
      rw [connections, Function.update_self] at found
      obtain ⟨old, there, rfl⟩ := Option.map_eq_some_iff.mp found
      obtain ⟨complete, whole⟩ := awaited (there ▸ Option.some_ne_none old)
      have stage := flagged.stage call.fd old there
      rw [complete] at passes stage
      rw [flags, complete]
      obtain ⟨key, member, payloads, written⟩ := stage
      rcases whole data passes sent transmits with all | ⟨-, nothing⟩
      · unfold passed at passes
        rw [if_pos rfl] at passes
        split at passes
        · cases passes
          refine ⟨key, member, payloads ++ [call.packet.take call.length.toNat], ?_⟩
          rw [written, all, List.flatMap_append, List.flatMap_singleton, List.append_assoc]
        · cases passes
      · exact ⟨key, member, payloads, by rw [nothing, List.append_nil, written]⟩
  · intro fd
    rw [connections]
    by_cases same : fd = call.fd
    · rw [same, Function.update_self, Option.map_eq_none_iff]
    · rw [Function.update_of_ne same]

theorem Flagged.sendAll (flagged : Flagged acceptHash state) {calls : List SendCall}
    {results : Int → transport.Result}
    (awaited : ∀ call ∈ calls, state.connections call.fd ≠ none →
      state.clientHandshakeComplete call.fd = true ∧
        ∀ frame, passed true call = some frame → transport.Whole frame (results call.fd))
    (sends : state.sendAll results calls = some next) : Flagged acceptHash next := by
  induction calls generalizing state with
  | nil =>
      cases sends
      exact flagged
  | cons call calls ih =>
      obtain ⟨⟨failed, after⟩, first, later⟩ := Option.bind_eq_some_iff.mp sends
      obtain ⟨kept, flags, opens⟩ := flagged.send (awaited call List.mem_cons_self) first
      apply ih kept _ later
      intro other member connected
      rw [flags]
      rw [ne_eq, opens] at connected
      exact awaited other (List.mem_cons_of_mem call member) connected

/-- The end of `recv`, after what it wrote to its client. -/
theorem Flagged.finish (flagged : Flagged acceptHash state) {fd : Int} {received : Received}
    (connections : ∀ other, other ≠ fd → next.connections other = state.connections other)
    (flags : next.clientHandshakeComplete = state.clientHandshakeComplete)
    (closed : next.closed = state.closed)
    (proper : ∀ connection, next.connections fd = some connection →
      connection.Proper acceptHash)
    (stage : ¬ received.result < 0 → ∀ connection, next.connections fd = some connection →
      connection.Stage acceptHash received.clientHandshakeComplete) :
    Flagged acceptHash (next.finish fd received) := by
  have others : ∀ other, other ≠ fd →
      Function.update next.clientHandshakeComplete fd received.clientHandshakeComplete other =
        state.clientHandshakeComplete other := by
    intro other different
    rw [Function.update_of_ne different, flags]
  unfold State.finish
  dsimp only
  split
  · exact flagged.closeWith fd connections others closed proper
  · rename_i positive
    refine flagged.of_single fd ?_ ?_ ?_ ?_
    · exact connections
    · exact others
    · exact fun connection member => flagged.closed connection (closed ▸ member)
    · intro connection found
      dsimp only
      rw [Function.update_self]
      exact stage positive connection found

/-- A request for the handshake is answered, or its client is closed. -/
theorem Flagged.handshake (flagged : Flagged acceptHash state) {fd : Int} {key : Bytes}
    {result : transport.Result} {failed : Bool} {received : Received}
    (fresh : state.clientHandshakeComplete fd = false)
    (whole : transport.Whole (getHandshakeResponse acceptHash key) result)
    (writes : (state.request fd key).write fd (getHandshakeResponse acceptHash key) result =
      some (failed, next))
    (outcome : received.result = if failed then -1 else 1)
    (complete : received.clientHandshakeComplete = !failed) :
    Flagged acceptHash (next.finish fd received) := by
  obtain ⟨sent, transmits, equal, flags, closed, connections⟩ := exists_of_write writes
  have here : ∀ connection, next.connections fd = some connection →
      key ∈ connection.keys ∧ connection.written = sent.written := by
    intro connection found
    rw [connections, Function.update_self, State.request] at found
    dsimp only at found
    rw [Function.update_self] at found
    obtain ⟨asked, first, rfl⟩ := Option.map_eq_some_iff.mp found
    obtain ⟨old, there, rfl⟩ := Option.map_eq_some_iff.mp first
    have stage := flagged.stage fd old there
    rw [fresh] at stage
    have nothing : old.written = [] := stage
    refine ⟨List.mem_append_right _ (List.mem_singleton_self key), ?_⟩
    dsimp only
    rw [nothing, List.nil_append]
  have framed : ∀ connection, next.connections fd = some connection →
      sent.written = getHandshakeResponse acceptHash key → connection.Framed acceptHash := by
    intro connection found all
    obtain ⟨member, written⟩ := here connection found
    exact ⟨key, member, [], by rw [written, all, List.flatMap_nil, List.append_nil]⟩
  apply flagged.finish _ flags closed
  · intro connection found
    rcases whole sent transmits with all | ⟨-, nothing⟩
    · exact .inr (framed connection found all)
    · exact .inl ((here connection found).2.trans nothing)
  · intro positive connection found
    rcases whole sent transmits with all | ⟨fails, -⟩
    · cases failed with
      | true => exact absurd (outcome ▸ by decide) positive
      | false =>
          rw [complete]
          exact framed connection found all
    · rw [outcome, equal, fails] at positive
      exact absurd (by decide) positive
  · intro other different
    rw [connections, Function.update_of_ne different]
    exact Function.update_of_ne different ..

theorem Flagged.recv {onRead : Int → Bytes → Int} (flagged : Flagged acceptHash state) {fd : Int}
    {data : Memory} {dataLength : Nat} {heap : Nat → Memory} {fuel : Nat}
    {result : transport.Result}
    (whole : state.clientHandshakeComplete fd = false → ∀ key,
      requestKey data heap fuel = some key →
        transport.Whole (getHandshakeResponse acceptHash key) result)
    (receives : state.recv onRead acceptHash fd data dataLength heap fuel result = some next) :
    Flagged acceptHash next := by
  unfold State.recv at receives
  cases complete : state.clientHandshakeComplete fd with
  | true =>
      simp only [complete, if_true] at receives
      obtain ⟨received, framed, rfl⟩ := Option.map_eq_some_iff.mp receives
      have stays : received.clientHandshakeComplete = true := by
        cases framed
        rfl
      apply flagged.finish (fun _ _ => rfl) rfl rfl
      · exact fun connection found => (flagged.stage fd connection found).proper
      · intro _ connection found
        rw [stays, ← complete]
        exact flagged.stage fd connection found
  | false =>
      simp only [complete] at receives
      cases asks : requestKey data heap fuel with
      | none =>
          simp only [asks] at receives
          obtain ⟨received, refused, rfl⟩ := Option.map_eq_some_iff.mp receives
          have outcome := recv_handshake refused
          simp only [asks] at outcome
          apply flagged.finish (fun _ _ => rfl) rfl rfl
          · exact fun connection found => (flagged.stage fd connection found).proper
          · intro positive
            rw [outcome.2.1] at positive
            exact absurd (by decide) positive
      | some key =>
          simp only [asks] at receives
          obtain ⟨⟨failed, after⟩, writes, later⟩ := Option.bind_eq_some_iff.mp receives
          obtain ⟨received, answered, rfl⟩ := Option.map_eq_some_iff.mp later
          have outcome := recv_handshake answered
          simp only [asks] at outcome
          exact flagged.handshake complete (whole complete key asks) writes outcome.2.1 outcome.2.2

theorem Flagged.step {onRead : Int → Bytes → Int} {action : Action transport}
    (flagged : Flagged acceptHash state) (awaited : Awaited acceptHash state action)
    (steps : step onRead acceptHash state action = some next) : Flagged acceptHash next := by
  cases action with
  | accept fd rejected =>
      unfold WebsocketServer.step at steps
      rw [Option.ite_none_right_eq_some] at steps
      cases steps.2
      exact flagged.accept fd rejected
  | recv fd data dataLength heap fuel result =>
      unfold WebsocketServer.step at steps
      rw [Option.ite_none_left_eq_some] at steps
      exact flagged.recv awaited steps.2
  | send call result =>
      unfold WebsocketServer.step at steps
      rw [Option.ite_none_right_eq_some] at steps
      obtain ⟨⟨-, complete⟩, sends⟩ := steps
      obtain ⟨⟨failed, after⟩, writes, rfl⟩ := Option.map_eq_some_iff.mp sends
      exact (flagged.send (fun _ => ⟨complete, awaited⟩) writes).1
  | broadcast clients buffer packet results => exact flagged.sendAll awaited steps
  | close fd =>
      unfold WebsocketServer.step at steps
      rw [Option.ite_none_left_eq_some] at steps
      cases steps.2
      exact flagged.close fd

/-- The step of a request with a key. -/
theorem step_handshake {onRead : Int → Bytes → Int} {fd : Int} {data : Memory}
    {dataLength : Nat} {heap : Nat → Memory} {fuel : Nat} {key : Bytes} {sent : EpollServer.Sent}
    {result : transport.Result} (connected : state.connections fd ≠ none)
    (fresh : state.clientHandshakeComplete fd = false)
    (asks : requestKey data heap fuel = some key)
    (sends : transport.send (getHandshakeResponse acceptHash key) result = some sent) :
    step onRead acceptHash state (.recv fd data dataLength heap fuel result) =
      some (((state.request fd key).wrote fd sent.written).finish fd
        ⟨none, if sent.failed then -1 else 1, !sent.failed,
          some (getHandshakeResponse acceptHash key)⟩) := by
  simp only [step, if_neg connected, State.recv, fresh, Bool.false_eq_true, if_false, asks,
    State.write, sends, Option.map_some, Option.bind_some]
  rw [recv_of_requestKey (onRead fd) acceptHash sent.failed dataLength asks, Option.map_some]

end Steps

/-- If no broadcast comes before a handshake and nothing is cut, every client
is written the response to its own request first, and frames from then on. -/
theorem proper_of_awaited {onRead : Int → Bytes → Int} {actions : List (Action transport)}
    {last : State}
    (run : Transitions.Run (step onRead acceptHash) (Awaited acceptHash) .start actions last) :
    last.Proper acceptHash := by
  have preserved : ∀ first action next, Flagged acceptHash first →
      @Awaited transport acceptHash first action →
      step onRead acceptHash first action = some next → Flagged acceptHash next :=
    fun first action next flagged awaited steps => flagged.step awaited steps
  have flagged := run.invariant preserved flagged_start
  exact ⟨fun fd connection found => (flagged.stage fd connection found).proper, flagged.closed⟩

namespace Sample

def key : Bytes := bytes "dGhlIHNhbXBsZSBub25jZQ=="

def request : Bytes :=
  bytes "GET / HTTP/1.1\r\nSec-WebSocket-Key: " ++ key ++ bytes "\r\n\r\n"

/-- The hash for this key. -/
def hash (_ : Bytes) : Bytes := bytes "s3pPLMBiTxaQ9kYGzzhZRbK+xOo="

def requestMemory : Memory := Memory.ofString (fun _ => 0) request

def goesOn (_ : Int) (_ : Bytes) : Int := 1

def arrives : Action .plain := .accept 10 false

def asks : Action .plain :=
  .recv 10 requestMemory request.length (fun _ _ => 0) 400
    (some (getHandshakeResponse hash key).length)

/-- A broadcast of two bytes, framed or not, that goes out. -/
def greets : Action .plain :=
  .broadcast [10] [] (some ⟨bytes "hi", [10]⟩) fun _ => some 4

theorem requestKey_request : requestKey requestMemory (fun _ _ => 0) 400 = some key := by
  decide +kernel

theorem whole_response : Transport.plain.Whole (getHandshakeResponse hash key)
    (some (getHandshakeResponse hash key).length) := by
  rw [Transport.whole_plain_iff]
  intro len equal
  cases equal
  exact Nat.le_refl _

end Sample

/-- A client is accepted, asks for its handshake, and is then broadcast to. -/
theorem proper_of_awaited_greets : ∃ last,
    Transitions.Run (step Sample.goesOn Sample.hash) (Awaited Sample.hash) .start
      [Sample.arrives, Sample.asks, Sample.greets] last ∧
    (last.connections 10).map Connection.written =
      some (getHandshakeResponse Sample.hash Sample.key ++ [0x81, 2, 104, 105]) ∧
    last.Proper Sample.hash := by
  obtain ⟨last, run, written⟩ : ∃ last,
      Transitions.Run (step Sample.goesOn Sample.hash) (Awaited Sample.hash) .start
        [Sample.arrives, Sample.asks, Sample.greets] last ∧
      (last.connections 10).map Connection.written =
        some (getHandshakeResponse Sample.hash Sample.key ++ [0x81, 2, 104, 105]) := by
    have accepts : step Sample.goesOn Sample.hash .start Sample.arrives =
        some ⟨Function.update (fun _ => false) 10 false,
          Function.update (fun _ => none) 10 (some ⟨[], []⟩), []⟩ := rfl
    have sends : Transport.plain.send (getHandshakeResponse Sample.hash Sample.key)
        (some (getHandshakeResponse Sample.hash Sample.key).length) =
        some ⟨false, getHandshakeResponse Sample.hash Sample.key⟩ :=
      congrArg (fun data => some (⟨false, data⟩ : EpollServer.Sent)) List.take_length
    refine ⟨_, .cons trivial accepts (.cons ?_ (step_handshake (Option.some_ne_none _) rfl
      Sample.requestKey_request sends) (.cons ?_ rfl (.nil _))), rfl⟩
    · rintro - key asks
      cases Sample.requestKey_request.symm.trans asks
      exact Sample.whole_response
    · intro call member connected
      cases List.mem_singleton.mp member
      refine ⟨rfl, ?_⟩
      intro frame passes
      cases passes
      rw [Transport.whole_plain_iff]
      intro len equal
      cases equal
      decide
  exact ⟨last, run, written, proper_of_awaited Sample.hash run⟩

/-- Broadcast to before it asks, the client is written the bare packet. -/
theorem exists_not_proper : ∃ last,
    Transitions.Run (step Sample.goesOn Sample.hash) Transitions.anything .start
      [Sample.arrives, Sample.greets] last ∧
    (last.connections 10).map Connection.written = some (bytes "hi") ∧
    ¬ last.Proper Sample.hash := by
  refine ⟨_, .cons trivial rfl (.cons trivial rfl (.nil _)), rfl, ?_⟩
  rintro ⟨proper, -⟩
  rcases proper 10 ⟨[], bytes "hi"⟩ rfl with nothing | ⟨key, member, -⟩
  · cases nothing
  · cases member

end WebsocketServer

end Libjaypea
