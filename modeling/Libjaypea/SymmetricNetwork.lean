import Libjaypea.SymmetricTransport
import Libjaypea.Transitions
import Mathlib.Logic.Function.Basic

/-!
# The symmetric clients and servers of one key

Any number of connections between clients and servers that share a key.  Every
end counts what it writes and what it reads, in an `int` each, and sends and
receives by `SymmetricEncryptor`.  A `SymmetricTcpClient` keeps its two counters
itself and sets them to zero when it closes a connection; the other two keep
them by descriptor and set them to zero when a connection starts.
-/

namespace Libjaypea

namespace Read

/-- The bytes that a read takes off the wire; none at its end. -/
def data? : Read → Option Bytes
  | wouldBlock => none
  | failed => none
  | received data => if data = [] then none else some data

end Read

namespace Symmetric

/-- Where the counters of one end are kept. -/
inductive Place
  /-- A `SymmetricTcpClient`, with `writes` and `reads`. -/
  | tcpClient (client : Nat)
  /-- A descriptor in the `write_counter` and `read_counter` of a `SymmetricEventClient`. -/
  | eventClient (client : Nat) (fd : Int)
  /-- A descriptor in those of a `SymmetricEpollServer`. -/
  | server (server : Nat) (fd : Int)
  deriving DecidableEq

structure Counters where
  writes : Int32
  reads : Int32

inductive Side
  | client
  | server
  deriving DecidableEq

def Side.other : Side → Side
  | client => server
  | server => client

@[simp]
theorem Side.other_other (side : Side) : side.other.other = side := by
  cases side <;> rfl

def Place.side : Place → Side
  | tcpClient _ => .client
  | eventClient _ _ => .client
  | server _ _ => .server

/-- The counters once a connection at the place is established. -/
def Place.opened : Place → Counters → Counters
  | tcpClient _, counters => counters
  | eventClient _ _, _ => ⟨0, 0⟩
  | server _ _, _ => ⟨0, 0⟩

/-- The counters once it is closed. -/
def Place.closed : Place → Counters → Counters
  | tcpClient _, _ => ⟨0, 0⟩
  | eventClient _ _, counters => counters
  | server _ _, counters => counters

/-- A frame that was written whole, with the text and the number that were
encrypted into it, and how many payloads were sent before its own. -/
structure Frame where
  data : Bytes
  text : Bytes
  transaction : Int32
  position : Nat

def Frame.plain (frame : Frame) : Bytes :=
  SymmetricEncryptor.transactionByte frame.transaction :: frame.text

/-- One direction of a connection. -/
structure Channel where
  /-- The payloads passed to `send`. -/
  sent : List Bytes
  /-- The frames written, all of them. -/
  frames : List Frame
  /-- How many frames were read. -/
  taken : Nat
  /-- The payloads passed to the callback of `recv`. -/
  delivered : List Bytes

structure Connection where
  /-- The places of the ends that are open. -/
  place : Side → Option Place
  accepted : Bool
  /-- What an end writes to the other one. -/
  channel : Side → Channel

structure Network where
  counters : Place → Counters
  connections : List Connection

inductive Action
  /-- A client connects; the connection waits to be accepted. -/
  | connect (place : Place)
  | accept (connection : Nat) (place : Place)
  /-- `send` of the C string at address one of `data`. -/
  | send (connection : Nat) (side : Side) (data stale : Memory) (sizeWrite blockWrite : Option Nat)
      (fuel : Nat)
  /-- `recv`, with what its reads return. -/
  | recv (connection : Nat) (side : Side) (reads : List Read) (callback : Bytes → Int)
  | close (connection : Nat) (side : Side)

namespace Network

def start : Network :=
  ⟨fun _ => ⟨0, 0⟩, []⟩

/-- An open connection uses the place. -/
def inUse (network : Network) (place : Place) : Bool :=
  network.connections.any fun connection => connection.place place.side = some place

end Network

namespace Channel

def empty : Channel :=
  ⟨[], [], 0, []⟩

/-- The frames of the next call of `send` that are written whole. -/
def framesOf (channel : Channel) (crypto : CryptoPP) (text : Bytes) (transaction : Int32)
    (sizeWrite : Option Nat) (sent : SymmetricEncryptor.Sent) : List Frame :=
  let block := SymmetricEncryptor.encryptTransaction crypto text transaction
  let position := channel.sent.length
  if sizeWrite = some 89 then
    ⟨sent.wire.take 89, SymmetricEncryptor.uint32Bytes block.length, transaction, position⟩ ::
      if sent.failed then [] else [⟨sent.wire.drop 89, text, transaction, position⟩]
  else []

def write (channel : Channel) (text : Bytes) (frames : List Frame) : Channel :=
  { channel with sent := channel.sent ++ [text], frames := channel.frames ++ frames }

def read (channel : Channel) (reads : List Read) (delivered : List Bytes) : Channel :=
  { channel with
    taken := channel.taken + (reads.filterMap Read.data?).length
    delivered := channel.delivered ++ delivered }

end Channel

/-- A new connection of a client. -/
def Connection.new (place : Place) : Connection :=
  ⟨fun side => if side = .client then some place else none, false, fun _ => .empty⟩

section Step

variable (crypto : CryptoPP)

def step (network : Network) : Action → Option Network
  | .connect place =>
      if place.side = .client ∧ network.inUse place = false then
        some {
          counters := Function.update network.counters place (place.opened (network.counters place))
          connections := network.connections ++ [.new place] }
      else none
  | .accept i place =>
      network.connections[i]?.bind fun connection =>
        if connection.accepted = false ∧ place.side = .server ∧ network.inUse place = false then
          some {
            counters := Function.update network.counters place (place.opened (network.counters place))
            connections := network.connections.set i { connection with
              place := Function.update connection.place .server (some place)
              accepted := true } }
        else none
  | .send i side data stale sizeWrite blockWrite fuel =>
      network.connections[i]?.bind fun connection =>
        (connection.place side).bind fun place =>
          (data.string fuel 1).bind fun text =>
            let counters := network.counters place
            (SymmetricEncryptor.send crypto data stale counters.writes sizeWrite blockWrite fuel).map
              fun sent => {
                counters := Function.update network.counters place
                  { counters with writes := sent.transaction }
                connections := network.connections.set i { connection with
                  channel := Function.update connection.channel side
                    ((connection.channel side).write text ((connection.channel side).framesOf
                      crypto text counters.writes sizeWrite sent)) } }
  | .recv i side reads callback =>
      network.connections[i]?.bind fun connection =>
        (connection.place side).bind fun place =>
          let counters := network.counters place
          (SymmetricEncryptor.recv crypto packetLimit callback counters.reads reads).map
            fun received => {
              counters := Function.update network.counters place
                { counters with reads := received.transaction }
              connections := network.connections.set i { connection with
                channel := Function.update connection.channel side.other
                  ((connection.channel side.other).read reads received.delivered) } }
  | .close i side =>
      network.connections[i]?.bind fun connection =>
        (connection.place side).map fun place => {
          counters := Function.update network.counters place (place.closed (network.counters place))
          connections := network.connections.set i { connection with
            place := Function.update connection.place side none } }

theorem step_send {network : Network} {i : Nat} {connection : Connection} {side : Side}
    {place : Place} {data stale : Memory} {sizeWrite blockWrite : Option Nat} {fuel : Nat}
    {text : Bytes} {sent : SymmetricEncryptor.Sent}
    (found : network.connections[i]? = some connection)
    (here : connection.place side = some place) (payload : data.string fuel 1 = some text)
    (sends : SymmetricEncryptor.send crypto data stale (network.counters place).writes sizeWrite
      blockWrite fuel = some sent) :
    step crypto network (.send i side data stale sizeWrite blockWrite fuel) =
      some {
        counters := Function.update network.counters place
          { network.counters place with writes := sent.transaction }
        connections := network.connections.set i { connection with
          channel := Function.update connection.channel side
            ((connection.channel side).write text ((connection.channel side).framesOf crypto text
              (network.counters place).writes sizeWrite sent)) } } := by
  simp [step, found, here, payload, sends]

theorem step_recv {network : Network} {i : Nat} {connection : Connection} {side : Side}
    {place : Place} {reads : List Read} {callback : Bytes → Int}
    {received : SymmetricEncryptor.Received}
    (found : network.connections[i]? = some connection)
    (here : connection.place side = some place)
    (receives : SymmetricEncryptor.recv crypto packetLimit callback (network.counters place).reads
      reads = some received) :
    step crypto network (.recv i side reads callback) =
      some {
        counters := Function.update network.counters place
          { network.counters place with reads := received.transaction }
        connections := network.connections.set i { connection with
          channel := Function.update connection.channel side.other
            ((connection.channel side.other).read reads received.delivered) } } := by
  simp [step, found, here, receives]

/-- What each step does. -/
inductive Stepped (network : Network) : Action → Network → Prop
  | connect {place : Place} (isClient : place.side = .client)
      (free : network.inUse place = false) :
      Stepped network (.connect place) {
        counters := Function.update network.counters place (place.opened (network.counters place))
        connections := network.connections ++ [.new place] }
  | accept {i : Nat} {place : Place} {old : Connection}
      (found : network.connections[i]? = some old) (fresh : old.accepted = false)
      (isServer : place.side = .server) (free : network.inUse place = false) :
      Stepped network (.accept i place) {
        counters := Function.update network.counters place (place.opened (network.counters place))
        connections := network.connections.set i { old with
          place := Function.update old.place .server (some place)
          accepted := true } }
  | send {i : Nat} {side : Side} {data stale : Memory} {sizeWrite blockWrite : Option Nat}
      {fuel : Nat} {old : Connection} {place : Place} {text : Bytes}
      {sent : SymmetricEncryptor.Sent} (found : network.connections[i]? = some old)
      (here : old.place side = some place) (payload : data.string fuel 1 = some text)
      (sends : SymmetricEncryptor.send crypto data stale (network.counters place).writes sizeWrite
        blockWrite fuel = some sent) :
      Stepped network (.send i side data stale sizeWrite blockWrite fuel) {
        counters := Function.update network.counters place
          { network.counters place with writes := sent.transaction }
        connections := network.connections.set i { old with
          channel := Function.update old.channel side ((old.channel side).write text
            ((old.channel side).framesOf crypto text (network.counters place).writes sizeWrite
              sent)) } }
  | recv {i : Nat} {side : Side} {reads : List Read} {callback : Bytes → Int} {old : Connection}
      {place : Place} {received : SymmetricEncryptor.Received}
      (found : network.connections[i]? = some old) (here : old.place side = some place)
      (receives : SymmetricEncryptor.recv crypto packetLimit callback (network.counters place).reads
        reads = some received) :
      Stepped network (.recv i side reads callback) {
        counters := Function.update network.counters place
          { network.counters place with reads := received.transaction }
        connections := network.connections.set i { old with
          channel := Function.update old.channel side.other
            ((old.channel side.other).read reads received.delivered) } }
  | close {i : Nat} {side : Side} {old : Connection} {place : Place}
      (found : network.connections[i]? = some old) (here : old.place side = some place) :
      Stepped network (.close i side) {
        counters := Function.update network.counters place (place.closed (network.counters place))
        connections := network.connections.set i { old with
          place := Function.update old.place side none } }

theorem stepped_of_step {network next : Network} {action : Action}
    (steps : step crypto network action = some next) : Stepped crypto network action next := by
  cases action with
  | connect place =>
      unfold step at steps
      rw [Option.ite_none_right_eq_some] at steps
      obtain ⟨⟨isClient, free⟩, steps⟩ := steps
      cases steps
      exact .connect isClient free
  | accept i place =>
      obtain ⟨old, found, steps⟩ := Option.bind_eq_some_iff.mp steps
      rw [Option.ite_none_right_eq_some] at steps
      obtain ⟨⟨fresh, isServer, free⟩, steps⟩ := steps
      cases steps
      exact .accept found fresh isServer free
  | send i side data stale sizeWrite blockWrite fuel =>
      obtain ⟨old, found, steps⟩ := Option.bind_eq_some_iff.mp steps
      obtain ⟨place, here, steps⟩ := Option.bind_eq_some_iff.mp steps
      obtain ⟨text, payload, steps⟩ := Option.bind_eq_some_iff.mp steps
      obtain ⟨sent, sends, rfl⟩ := Option.map_eq_some_iff.mp steps
      exact .send found here payload sends
  | recv i side reads callback =>
      obtain ⟨old, found, steps⟩ := Option.bind_eq_some_iff.mp steps
      obtain ⟨place, here, steps⟩ := Option.bind_eq_some_iff.mp steps
      obtain ⟨received, receives, rfl⟩ := Option.map_eq_some_iff.mp steps
      exact .recv found here receives
  | close i side =>
      obtain ⟨old, found, steps⟩ := Option.bind_eq_some_iff.mp steps
      obtain ⟨place, here, rfl⟩ := Option.map_eq_some_iff.mp steps
      exact .close found here

/-- What a step can do to one direction of a connection, the one from `side`. -/
inductive Effect (network : Network) (action : Action) (i : Nat) (side : Side) : Channel → Prop
  | new (fresh : network.connections[i]? = none) : Effect network action i side .empty
  | same {old : Connection} (found : network.connections[i]? = some old) :
      Effect network action i side (old.channel side)
  | wrote {old : Connection} {place : Place} {data stale : Memory}
      {sizeWrite blockWrite : Option Nat} {fuel : Nat} {text : Bytes}
      {sent : SymmetricEncryptor.Sent} (found : network.connections[i]? = some old)
      (acts : action = .send i side data stale sizeWrite blockWrite fuel)
      (here : old.place side = some place) (payload : data.string fuel 1 = some text)
      (sends : SymmetricEncryptor.send crypto data stale (network.counters place).writes sizeWrite
        blockWrite fuel = some sent) :
      Effect network action i side ((old.channel side).write text
        ((old.channel side).framesOf crypto text (network.counters place).writes sizeWrite sent))
  | read {old : Connection} {place : Place} {reads : List Read} {callback : Bytes → Int}
      {received : SymmetricEncryptor.Received} (found : network.connections[i]? = some old)
      (acts : action = .recv i side.other reads callback)
      (here : old.place side.other = some place)
      (receives : SymmetricEncryptor.recv crypto packetLimit callback (network.counters place).reads
        reads = some received) :
      Effect network action i side ((old.channel side).read reads received.delivered)

theorem getElem?_set_cases {α : Type*} {entries : List α} {i j : Nat} {changed one : α}
    (there : (entries.set i changed)[j]? = some one) :
    j = i ∧ one = changed ∨ j ≠ i ∧ entries[j]? = some one := by
  by_cases here : j = i
  · subst here
    have inside := (List.getElem?_eq_some_iff.mp there).1
    rw [List.length_set] at inside
    rw [List.getElem?_set_self inside] at there
    cases there
    exact .inl ⟨rfl, rfl⟩
  · rw [List.getElem?_set_ne (Ne.symm here)] at there
    exact .inr ⟨here, there⟩

theorem getElem?_concat_cases {α : Type*} {list : List α} {added value : α} {j : Nat}
    (there : (list ++ [added])[j]? = some value) :
    list[j]? = some value ∨ j = list.length ∧ value = added := by
  rw [List.getElem?_append] at there
  split at there
  · exact .inl there
  · have inside := (List.getElem?_eq_some_iff.mp there).1
    rw [List.length_singleton] at inside
    exact .inr ⟨by omega, List.mem_singleton.mp (List.mem_of_getElem? there)⟩

theorem Effect.of_set {network : Network} {action : Action} {i j : Nat} {side : Side}
    {changed connection : Connection}
    (effect : Effect crypto network action i side (changed.channel side))
    (there : (network.connections.set i changed)[j]? = some connection) :
    Effect crypto network action j side (connection.channel side) := by
  rcases getElem?_set_cases there with ⟨rfl, rfl⟩ | ⟨-, old⟩
  · exact effect
  · exact .same old

theorem effect_of_step {network next : Network} {action : Action}
    (steps : step crypto network action = some next) {j : Nat} {connection : Connection}
    (there : next.connections[j]? = some connection) (side : Side) :
    Effect crypto network action j side (connection.channel side) := by
  cases stepped_of_step crypto steps with
  | connect isClient free =>
      rcases getElem?_concat_cases there with old | ⟨rfl, rfl⟩
      · exact .same old
      · exact .new (List.getElem?_eq_none (Nat.le_refl _))
  | @accept i place old found fresh isServer free =>
      refine Effect.of_set crypto ?_ there
      change Effect crypto network _ i side (old.channel side)
      exact .same found
  | @send i one data stale sizeWrite blockWrite fuel old place text sent found here payload sends =>
      refine Effect.of_set crypto ?_ there
      dsimp only
      by_cases same : side = one
      · subst same
        rw [Function.update_self]
        exact .wrote found rfl here payload sends
      · rw [Function.update_of_ne same]
        exact .same found
  | @recv i one reads callback old place received found here receives =>
      refine Effect.of_set crypto ?_ there
      dsimp only
      by_cases same : side = one.other
      · subst same
        rw [Function.update_self]
        rw [← Side.other_other one] at here
        exact .read found (by rw [Side.other_other]) here receives
      · rw [Function.update_of_ne same]
        exact .same found
  | @close i one old place found here =>
      refine Effect.of_set crypto ?_ there
      change Effect crypto network _ i side (old.channel side)
      exact .same found

/-- Connections stay, and so does what was sent on them. -/
theorem sent_of_step {network next : Network} {action : Action}
    (steps : step crypto network action = some next) {i : Nat} {old : Connection}
    (found : network.connections[i]? = some old) :
    ∃ later, next.connections[i]? = some later ∧
      ∀ side, (old.channel side).sent <+: (later.channel side).sent := by
  have longer : network.connections.length ≤ next.connections.length := by
    cases stepped_of_step crypto steps with
    | connect isClient free => simp
    | accept found fresh isServer free => simp
    | send found here payload sends => simp
    | recv found here receives => simp
    | close found here => simp
  have inside := Nat.lt_of_lt_of_le (List.getElem?_eq_some_iff.mp found).1 longer
  refine ⟨_, List.getElem?_eq_getElem inside, fun side => ?_⟩
  have effect := effect_of_step crypto steps (List.getElem?_eq_getElem inside) side
  generalize (next.connections[i].channel side) = channel at effect
  cases effect with
  | new fresh =>
      rw [found] at fresh
      cases fresh
  | same found' =>
      cases found.symm.trans found'
      exact List.prefix_rfl
  | wrote found' _ _ _ _ =>
      cases found.symm.trans found'
      exact List.prefix_append _ _
  | read found' _ _ _ =>
      cases found.symm.trans found'
      exact List.prefix_rfl

/-- What the counters say of one connection: an open end has written what it
sent, and read what was delivered to it. -/
structure Connection.Counted (counters : Place → Counters) (connection : Connection) : Prop where
  side : ∀ side place, connection.place side = some place → place.side = side
  writes : ∀ side place, connection.place side = some place →
    (counters place).writes = .ofNat (connection.channel side).sent.length
  reads : ∀ side place, connection.place side = some place →
    (counters place).reads = .ofNat (connection.channel side.other).delivered.length
  waiting : connection.accepted = false → connection.place .server = none ∧
    (connection.channel .server).sent = [] ∧ (connection.channel .client).delivered = []

/-- No two open connections share a place, and a `SymmetricTcpClient` that is
not connected counts from zero. -/
structure Network.Counted (network : Network) : Prop where
  each : ∀ (i : Nat) connection, network.connections[i]? = some connection →
    connection.Counted network.counters
  apart : ∀ (i j : Nat) (first second : Connection) (place : Place),
    network.connections[i]? = some first → network.connections[j]? = some second →
    first.place place.side = some place → second.place place.side = some place → i = j
  idle : ∀ client, network.inUse (.tcpClient client) = false →
    network.counters (.tcpClient client) = ⟨0, 0⟩

section Counted

variable {network : Network} {place : Place} {connection changed : Connection} {i : Nat}

theorem Network.inUse_iff : network.inUse place = true ↔
    ∃ (i : Nat) (connection : Connection), network.connections[i]? = some connection ∧
      connection.place place.side = some place := by
  unfold Network.inUse
  rw [List.any_eq_true]
  constructor
  · rintro ⟨connection, member, here⟩
    obtain ⟨i, found⟩ := List.mem_iff_getElem?.mp member
    exact ⟨i, connection, found, of_decide_eq_true here⟩
  · rintro ⟨i, connection, found, here⟩
    exact ⟨connection, List.mem_of_getElem? found, decide_eq_true here⟩

theorem Network.not_inUse (free : network.inUse place = false) {i : Nat} {connection : Connection}
    (found : network.connections[i]? = some connection) :
    connection.place place.side ≠ some place := by
  intro here
  rw [Network.inUse_iff.mpr ⟨i, connection, found, here⟩] at free
  cases free

theorem Connection.Counted.of_counters {counters others : Place → Counters}
    (counted : connection.Counted counters)
    (same : ∀ side place, connection.place side = some place → others place = counters place) :
    connection.Counted others where
  side := counted.side
  writes side place here := by
    rw [same side place here]
    exact counted.writes side place here
  reads side place here := by
    rw [same side place here]
    exact counted.reads side place here
  waiting := counted.waiting

/-- The counters at a place matter only to the connections that use it. -/
theorem Connection.Counted.elsewhere {counters : Place → Counters}
    (counted : connection.Counted counters) (unused : connection.place place.side ≠ some place)
    (counts : Counters) : connection.Counted (Function.update counters place counts) := by
  apply counted.of_counters
  intro side used uses
  apply Function.update_of_ne
  rintro rfl
  rw [← counted.side side used uses] at uses
  exact unused uses

/-- A connection changes, and the counters at a place that no other uses. -/
theorem Network.Counted.change (counted : network.Counted)
    (found : network.connections[i]? = some connection) (counters : Counters)
    (alone : ∀ (j : Nat) (other : Connection), network.connections[j]? = some other →
      other.place place.side = some place → j = i)
    (kept : changed.Counted (Function.update network.counters place counters))
    (places : ∀ side other, other ≠ place →
      (changed.place side = some other ↔ connection.place side = some other))
    (released : changed.place place.side ≠ some place → ∀ client,
      place = .tcpClient client → counters = ⟨0, 0⟩) :
    Network.Counted {
      counters := Function.update network.counters place counters
      connections := network.connections.set i changed } := by
  have atIndex : (network.connections.set i changed)[i]? = some changed :=
    List.getElem?_set_self (List.getElem?_eq_some_iff.mp found).1
  refine ⟨?_, ?_, ?_⟩
  · intro j other here
    rcases getElem?_set_cases here with ⟨rfl, rfl⟩ | ⟨elsewhere, old⟩
    · exact kept
    · exact (counted.each j other old).elsewhere (fun uses => elsewhere (alone j other old uses)) _
  · intro j k first second used firstHere secondHere firstUses secondUses
    by_cases here : used = place
    · subst here
      have index : ∀ (j : Nat) (one : Connection),
          (network.connections.set i changed)[j]? = some one →
          one.place used.side = some used → j = i := by
        intro j one there uses
        rcases getElem?_set_cases there with ⟨same, -⟩ | ⟨-, old⟩
        · exact same
        · exact alone j one old uses
      rw [index j first firstHere firstUses, index k second secondHere secondUses]
    · have back : ∀ (j : Nat) (one : Connection),
          (network.connections.set i changed)[j]? = some one →
          one.place used.side = some used → ∃ old : Connection,
            network.connections[j]? = some old ∧ old.place used.side = some used := by
        intro j one there uses
        rcases getElem?_set_cases there with ⟨rfl, rfl⟩ | ⟨-, old⟩
        · exact ⟨connection, found, (places _ used here).mp uses⟩
        · exact ⟨one, old, uses⟩
      obtain ⟨oldFirst, foundFirst, usesFirst⟩ := back j first firstHere firstUses
      obtain ⟨oldSecond, foundSecond, usesSecond⟩ := back k second secondHere secondUses
      exact counted.apart j k oldFirst oldSecond used foundFirst foundSecond usesFirst usesSecond
  · intro client free
    dsimp only
    have unused : ∀ (j : Nat) (one : Connection),
        (network.connections.set i changed)[j]? = some one →
        one.place .client ≠ some (.tcpClient client) :=
      fun j one here => Network.not_inUse free here
    by_cases here : Place.tcpClient client = place
    · subst here
      rw [Function.update_self]
      exact released (unused i changed atIndex) client rfl
    · rw [Function.update_of_ne here]
      apply counted.idle
      rw [← Bool.not_eq_true]
      intro used
      obtain ⟨j, old, foundOld, uses⟩ := Network.inUse_iff.mp used
      by_cases same : j = i
      · rw [same, found] at foundOld
        cases foundOld
        exact unused i changed atIndex ((places _ _ here).mpr uses)
      · exact unused j old ((List.getElem?_set_ne (Ne.symm same)).trans foundOld) uses

theorem Network.Counted.opened (counted : network.Counted) (free : network.inUse place = false) :
    place.opened (network.counters place) = ⟨0, 0⟩ := by
  cases place with
  | tcpClient client => exact counted.idle client free
  | eventClient client fd => rfl
  | server server fd => rfl

theorem place_new {side : Side} {used : Place}
    (uses : (Connection.new place).place side = some used) : side = .client ∧ used = place := by
  simp only [Connection.new, Option.ite_none_right_eq_some, Option.some.injEq] at uses
  exact ⟨uses.1, uses.2.symm⟩

/-- A connection starts at counters of zero. -/
theorem Connection.counted_new {counters : Place → Counters} (isClient : place.side = .client)
    (fresh : counters place = ⟨0, 0⟩) : (Connection.new place).Counted counters := by
  refine ⟨?_, ?_, ?_, fun _ => ⟨rfl, rfl, rfl⟩⟩
  · intro side used uses
    obtain ⟨rfl, rfl⟩ := place_new uses
    exact isClient
  · intro side used uses
    obtain ⟨rfl, rfl⟩ := place_new uses
    rw [fresh]
    rfl
  · intro side used uses
    obtain ⟨rfl, rfl⟩ := place_new uses
    rw [fresh]
    rfl

theorem Network.Counted.connect (counted : network.Counted) (isClient : place.side = .client)
    (free : network.inUse place = false) :
    Network.Counted {
      counters := Function.update network.counters place (place.opened (network.counters place))
      connections := network.connections ++ [.new place] } := by
  refine ⟨?_, ?_, ?_⟩
  · intro j one here
    rcases getElem?_concat_cases here with old | ⟨-, rfl⟩
    · exact (counted.each j one old).elsewhere (Network.not_inUse free old) _
    · rw [counted.opened free]
      exact Connection.counted_new isClient (Function.update_self ..)
  · intro j k first second used firstHere secondHere firstUses secondUses
    rcases getElem?_concat_cases firstHere with oldFirst | ⟨rfl, rfl⟩
    · rcases getElem?_concat_cases secondHere with oldSecond | ⟨rfl, rfl⟩
      · exact counted.apart j k first second used oldFirst oldSecond firstUses secondUses
      · obtain ⟨-, rfl⟩ := place_new secondUses
        exact absurd firstUses (Network.not_inUse free oldFirst)
    · rcases getElem?_concat_cases secondHere with oldSecond | ⟨rfl, rfl⟩
      · obtain ⟨-, rfl⟩ := place_new firstUses
        exact absurd secondUses (Network.not_inUse free oldSecond)
      · rfl
  · intro client unused
    have different : Place.tcpClient client ≠ place := by
      rintro rfl
      have last : (network.connections ++ [.new (.tcpClient client)])[network.connections.length]? =
          some (.new (.tcpClient client)) := by simp
      exact Network.not_inUse unused last rfl
    dsimp only
    rw [Function.update_of_ne different]
    apply counted.idle
    rw [← Bool.not_eq_true]
    intro used
    obtain ⟨j, old, found, uses⟩ := Network.inUse_iff.mp used
    have inside := (List.getElem?_eq_some_iff.mp found).1
    exact Network.not_inUse unused ((List.getElem?_append_left inside).trans found) uses

theorem counted_start : Network.start.Counted where
  each i connection here := by cases here
  apart i j first second place here := by cases here
  idle client _ := rfl

theorem Side.eq_other {first second : Side} (different : first ≠ second) : first = second.other := by
  cases first <;> cases second
  all_goals first
    | rfl
    | exact absurd rfl different

/-- An end sends or receives. -/
theorem Connection.Counted.exchange {counters : Place → Counters}
    (counted : connection.Counted counters) {side : Side}
    (here : connection.place side = some place) {counts : Counters} {channel : Side → Channel}
    (writes : counts.writes = .ofNat (channel side).sent.length)
    (reads : counts.reads = .ofNat (channel side.other).delivered.length)
    (otherSent : (channel side.other).sent = (connection.channel side.other).sent)
    (otherDelivered : (channel side).delivered = (connection.channel side).delivered) :
    Connection.Counted (Function.update counters place counts)
      { connection with channel := channel } := by
  have different : ∀ one used, connection.place one = some used → one ≠ side → used ≠ place := by
    rintro one used uses other rfl
    exact other ((counted.side one used uses).symm.trans (counted.side side used here))
  refine ⟨counted.side, ?_, ?_, ?_⟩
  · intro one used uses
    dsimp only
    by_cases same : one = side
    · subst same
      cases here.symm.trans uses
      rw [Function.update_self, writes]
    · rw [Function.update_of_ne (different one used uses same), Side.eq_other same, otherSent,
        ← Side.eq_other same]
      exact counted.writes one used uses
  · intro one used uses
    dsimp only
    by_cases same : one = side
    · subst same
      cases here.symm.trans uses
      rw [Function.update_self, reads]
    · rw [Function.update_of_ne (different one used uses same), Side.eq_other same,
        Side.other_other, otherDelivered]
      have other := counted.reads one used uses
      rwa [Side.eq_other same, Side.other_other] at other
  · intro fresh
    obtain ⟨unplaced, sent, delivered⟩ := counted.waiting fresh
    cases side with
    | client => exact ⟨unplaced, otherSent.trans sent, otherDelivered.trans delivered⟩
    | server =>
        rw [unplaced] at here
        cases here

/-- An end starts or stops to use a place of its own. -/
theorem Connection.Counted.replace {counters : Place → Counters}
    (counted : connection.Counted counters) {side : Side} {now : Option Place} {counts : Counters}
    (unused : ∀ one used, one ≠ side → connection.place one = some used → used ≠ place)
    (used : ∀ other, now = some other → other = place ∧ place.side = side ∧
      counts.writes = .ofNat (connection.channel side).sent.length ∧
      counts.reads = .ofNat (connection.channel side.other).delivered.length)
    (accepted : Bool)
    (waiting : accepted = false → Function.update connection.place side now .server = none ∧
      (connection.channel .server).sent = [] ∧ (connection.channel .client).delivered = []) :
    Connection.Counted (Function.update counters place counts)
      { connection with
        place := Function.update connection.place side now
        accepted := accepted } := by
  refine ⟨?_, ?_, ?_, waiting⟩
  · intro one other uses
    dsimp only at uses
    by_cases same : one = side
    · subst same
      rw [Function.update_self] at uses
      obtain ⟨rfl, isSide, -⟩ := used other uses
      exact isSide
    · rw [Function.update_of_ne same] at uses
      exact counted.side one other uses
  · intro one other uses
    dsimp only at uses ⊢
    by_cases same : one = side
    · subst same
      rw [Function.update_self] at uses
      obtain ⟨rfl, -, writes, -⟩ := used other uses
      rw [Function.update_self, writes]
    · rw [Function.update_of_ne same] at uses
      rw [Function.update_of_ne (unused one other same uses)]
      exact counted.writes one other uses
  · intro one other uses
    dsimp only at uses ⊢
    by_cases same : one = side
    · subst same
      rw [Function.update_self] at uses
      obtain ⟨rfl, -, -, reads⟩ := used other uses
      rw [Function.update_self, reads]
    · rw [Function.update_of_ne same] at uses
      rw [Function.update_of_ne (unused one other same uses)]
      exact counted.reads one other uses

theorem Network.Counted.alone (counted : network.Counted) {side : Side}
    (found : network.connections[i]? = some connection)
    (here : connection.place side = some place) :
    ∀ (j : Nat) (other : Connection), network.connections[j]? = some other →
      other.place place.side = some place → j = i := by
  intro j other there uses
  rw [← (counted.each i connection found).side side place here] at here
  exact counted.apart j i other connection place there found uses here

theorem Network.Counted.accept (counted : network.Counted)
    (found : network.connections[i]? = some connection) (fresh : connection.accepted = false)
    (isServer : place.side = .server) (free : network.inUse place = false) :
    Network.Counted {
      counters := Function.update network.counters place (place.opened (network.counters place))
      connections := network.connections.set i { connection with
        place := Function.update connection.place .server (some place)
        accepted := true } } := by
  have counts := counted.each i connection found
  obtain ⟨unplaced, sent, delivered⟩ := counts.waiting fresh
  rw [counted.opened free]
  refine counted.change found _ ?_ (counts.replace ?_ ?_ true ?_) ?_ ?_
  · intro j other there uses
    exact absurd uses (Network.not_inUse free there)
  · rintro one used - uses rfl
    rw [← counts.side one used uses] at uses
    exact Network.not_inUse free found uses
  · intro other equal
    cases equal
    exact ⟨rfl, isServer, by rw [sent]; rfl, by rw [Side.other, delivered]; rfl⟩
  · intro unaccepted
    cases unaccepted
  · intro side other different
    dsimp only
    by_cases same : side = .server
    · subst same
      rw [Function.update_self, unplaced]
      constructor
      · intro equal
        cases equal
        exact absurd rfl different
      · intro equal
        cases equal
    · rw [Function.update_of_ne same]
  · intro _ client equal
    rfl

theorem Network.Counted.send (counted : network.Counted)
    (found : network.connections[i]? = some connection) {side : Side}
    (here : connection.place side = some place) {data stale : Memory}
    {sizeWrite blockWrite : Option Nat} {fuel : Nat} {sent : SymmetricEncryptor.Sent}
    (sends : SymmetricEncryptor.send crypto data stale (network.counters place).writes sizeWrite
      blockWrite fuel = some sent) (text : Bytes) (frames : List Frame) :
    Network.Counted {
      counters := Function.update network.counters place
        { network.counters place with writes := sent.transaction }
      connections := network.connections.set i { connection with
        channel := Function.update connection.channel side
          ((connection.channel side).write text frames) } } := by
  have counts := counted.each i connection found
  refine counted.change found _ (counted.alone found here) (counts.exchange here ?_ ?_ ?_ ?_)
    (fun _ _ _ => Iff.rfl) ?_
  · rw [Function.update_self, SymmetricEncryptor.send_transaction sends,
      counts.writes side place here]
    simp [Channel.write]
  · rw [Function.update_of_ne (by cases side <;> decide)]
    exact counts.reads side place here
  · rw [Function.update_of_ne (by cases side <;> decide)]
  · rw [Function.update_self]
    rfl
  · intro released
    rw [counts.side side place here] at released
    exact absurd here released

theorem Network.Counted.recv (counted : network.Counted)
    (found : network.connections[i]? = some connection) {side : Side}
    (here : connection.place side = some place) {reads : List Read} {callback : Bytes → Int}
    {received : SymmetricEncryptor.Received}
    (receives : SymmetricEncryptor.recv crypto packetLimit callback (network.counters place).reads
      reads = some received) :
    Network.Counted {
      counters := Function.update network.counters place
        { network.counters place with reads := received.transaction }
      connections := network.connections.set i { connection with
        channel := Function.update connection.channel side.other
          ((connection.channel side.other).read reads received.delivered) } } := by
  have counts := counted.each i connection found
  refine counted.change found _ (counted.alone found here) (counts.exchange here ?_ ?_ ?_ ?_)
    (fun _ _ _ => Iff.rfl) ?_
  · rw [Function.update_of_ne (by cases side <;> decide)]
    exact counts.writes side place here
  · rw [Function.update_self, SymmetricEncryptor.recv_transaction receives,
      counts.reads side place here]
    simp [Channel.read]
  · rw [Function.update_self]
    rfl
  · rw [Function.update_of_ne (by cases side <;> decide)]
  · intro released
    rw [counts.side side place here] at released
    exact absurd here released

theorem Network.Counted.close (counted : network.Counted)
    (found : network.connections[i]? = some connection) {side : Side}
    (here : connection.place side = some place) :
    Network.Counted {
      counters := Function.update network.counters place (place.closed (network.counters place))
      connections := network.connections.set i { connection with
        place := Function.update connection.place side none } } := by
  have counts := counted.each i connection found
  have unused : ∀ one used, one ≠ side → connection.place one = some used → used ≠ place := by
    rintro one used other uses rfl
    exact other ((counts.side one used uses).symm.trans (counts.side side used here))
  refine counted.change found _ (counted.alone found here)
    (counts.replace unused (by simp) connection.accepted ?_) ?_ ?_
  · intro fresh
    obtain ⟨unplaced, rest⟩ := counts.waiting fresh
    refine ⟨?_, rest⟩
    by_cases same : Side.server = side
    · rw [same, Function.update_self]
    · rw [Function.update_of_ne same, unplaced]
  · intro one other different
    dsimp only
    by_cases same : one = side
    · subst same
      rw [Function.update_self, here]
      constructor
      · intro equal
        cases equal
      · intro equal
        cases equal
        exact absurd rfl different
    · rw [Function.update_of_ne same]
  · rintro - client rfl
    rfl

theorem Network.Counted.step {next : Network} {action : Action} (counted : network.Counted)
    (steps : step crypto network action = some next) : next.Counted := by
  cases stepped_of_step crypto steps with
  | connect isClient free => exact counted.connect isClient free
  | accept found fresh isServer free => exact counted.accept found fresh isServer free
  | send found here payload sends => exact counted.send crypto found here sends _ _
  | recv found here receives => exact counted.recv crypto found here receives
  | close found here => exact counted.close found here

end Counted

end Step

namespace Sample

open SymmetricEncryptor.Sample

def place : Side → Place
  | .client => .tcpClient 0
  | .server => .server 0 7

/-- A client connects, is accepted and sends a greeting. -/
def greets : List Action :=
  [.connect (place .client), .accept 0 (place .server),
    .send 0 .client greetingMemory (fun _ => 0) (some 89) (some 65) 3]

/-- The two frames of the greeting. -/
def frames : List Frame :=
  [⟨wire.take 89, SymmetricEncryptor.uint32Bytes 65, 0, 0⟩, ⟨wire.drop 89, bytes "hi", 0, 0⟩]

theorem frames_greeting :
    Channel.empty.framesOf crypto (bytes "hi") 0 (some 89) ⟨false, 1, wire⟩ = frames := by
  simp [Channel.framesOf, Channel.empty, length_greeting, frames]

/-- The steps of the greeting, and what they leave behind. -/
theorem exists_greeted : ∃ first second third : Network, ∃ connection : Connection,
    step crypto .start (.connect (place .client)) = some first ∧
    step crypto first (.accept 0 (place .server)) = some second ∧
    step crypto second (.send 0 .client greetingMemory (fun _ => 0) (some 89) (some 65) 3) =
      some third ∧
    (second.counters (place .client)).writes = 0 ∧
    (∃ before, second.connections = [before] ∧ before.place .client = some (place .client)) ∧
    third.connections = [connection] ∧
    (∀ side, connection.place side = some (place side) ∧
      (third.counters (place side)).reads = 0) ∧
    connection.channel .client = ⟨[bytes "hi"], frames, 0, []⟩ ∧
    connection.channel .server = .empty := by
  refine ⟨_, _, _, _, rfl, rfl, step_send crypto rfl rfl string_greetingMemory send_greeting, rfl,
    ⟨_, rfl, rfl⟩, rfl, ?_, ?_, rfl⟩
  · intro side
    cases side <;> exact ⟨rfl, rfl⟩
  · exact congrArg (fun frames => Channel.mk [bytes "hi"] frames 0 []) frames_greeting

end Sample

end Symmetric

end Libjaypea
