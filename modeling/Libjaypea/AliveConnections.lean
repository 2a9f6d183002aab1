import Libjaypea.TcpEventClient
import Libjaypea.Transitions

/-!
# The counter of the living connections

The counter of the event client is only right if it starts at zero, which
nothing sees to.  From there on it is the number of the connections that are
not dead, each connection is closed once, and the loop ends when all are dead,
provided that no pass leaves a connection without a socket and `running` unset.
-/

namespace Libjaypea

namespace EventClient

open Transitions

namespace Client

/-- The number of connections whose state is not `DEAD`. -/
def living (client : Client) : Nat :=
  client.connections.countP fun pointer => client.state pointer ≠ .dead

end Client

/-- What the client promises in every state of `run`. -/
structure Correct (client : Client) : Prop where
  alive : client.aliveConnections.toInt = client.living
  once : client.closed.Nodup
  returns : client.control = .returned false →
    ∀ pointer ∈ client.connections, client.state pointer = .dead

/-- A pass that has not set `running` does not end with a connection that still
waits for a socket: where `socket` reports `EMFILE`, another connection goes on. -/
def Unstranded (client : Client) : Action → Prop
  | .endPass => client.running = true ∨
      ∀ pointer ∈ client.connections, client.state pointer ≠ .disconnected
  | _ => True

section Visits

variable {client next : Client} {pointer : Nat}

/-- What a visit does to the connection and to the variables of the client. -/
structure Visited (client : Client) (pointer : Nat) (next : Client) : Prop where
  connections : next.connections = client.connections
  others : ∀ other, other ≠ pointer → next.connection other = client.connection other
  closes : (client.state pointer ≠ .dead ∧ next.state pointer = .dead ∧
      next.aliveConnections = client.aliveConnections - 1 ∧ next.closed = pointer :: client.closed) ∨
    ((next.state pointer = .dead ↔ client.state pointer = .dead) ∧
      next.aliveConnections = client.aliveConnections ∧ next.closed = client.closed)
  runs : client.running = true → next.running = true
  rests : next.running = false →
    next.state pointer = .dead ∨ next.state pointer = .disconnected

section Updates

variable (client pointer) (change : Connection → Connection)

@[simp]
theorem Client.state_update_self :
    (client.update pointer change).state pointer = (change (client.connection pointer)).state := by
  simp [Client.state, Client.update]

@[simp]
theorem Client.state_closeClient_self : (client.closeClient pointer).state pointer = .dead := by
  simp [Client.state, Client.closeClient, Client.update]

@[simp]
theorem Client.state_connecting_self (address : UInt32) :
    (client.connecting pointer address).state pointer = .connecting := by
  simp [Client.state, Client.connecting, Client.update]

variable {client pointer} {other : Nat} (apart : other ≠ pointer)
include apart

theorem Client.connection_update_of_ne :
    (client.update pointer change).connection other = client.connection other := by
  simp [Client.update, apart]

theorem Client.connection_closeClient_of_ne :
    (client.closeClient pointer).connection other = client.connection other := by
  simp [Client.closeClient, Client.update, apart]

theorem Client.connection_connecting_of_ne (address : UInt32) :
    (client.connecting pointer address).connection other = client.connection other := by
  simp [Client.connecting, Client.update, apart]

end Updates

theorem visited_closeClient (living : client.state pointer ≠ .dead) :
    Visited client pointer (client.closeClient pointer) where
  connections := rfl
  others _ apart := Client.connection_closeClient_of_ne apart
  closes := Or.inl ⟨living, by simp, rfl, rfl⟩
  runs running := running
  rests _ := Or.inl (by simp)

theorem visited_connecting (living : client.state pointer ≠ .dead) (address : UInt32) :
    Visited client pointer (client.connecting pointer address) where
  connections := rfl
  others _ apart := Client.connection_connecting_of_ne apart address
  closes := Or.inr ⟨by simp [living], rfl, rfl⟩
  runs _ := rfl
  rests stops := by cases stops

/-- What was set before does not count, as long as the connection was not closed. -/
theorem Visited.of_same {middle : Client} (visited : Visited middle pointer next)
    (connections : middle.connections = client.connections)
    (others : ∀ other, other ≠ pointer → middle.connection other = client.connection other)
    (dead : middle.state pointer = .dead ↔ client.state pointer = .dead)
    (alive : middle.aliveConnections = client.aliveConnections)
    (closed : middle.closed = client.closed) (running : middle.running = client.running) :
    Visited client pointer next where
  connections := visited.connections.trans connections
  others other apart := (visited.others other apart).trans (others other apart)
  closes := by
    have closes := visited.closes
    rwa [ne_eq, dead, alive, closed] at closes
  runs := running ▸ visited.runs
  rests := visited.rests

theorem Visited.of_opened {fd : Int}
    (visited : Visited (client.update pointer fun connection => { connection with fd := fd })
      pointer next) : Visited client pointer next :=
  visited.of_same rfl (fun _ apart => Client.connection_update_of_ne _ apart)
    (by rw [Client.state_update_self]; exact Iff.rfl) rfl rfl rfl

theorem Visited.of_resolved {hostAddresses : List (Bytes × UInt32)}
    (visited : Visited { client with hostAddresses := hostAddresses } pointer next) :
    Visited client pointer next :=
  visited.of_same rfl (fun _ _ => rfl) Iff.rfl rfl rfl rfl

theorem Visited.run (visited : Visited client pointer next) :
    Visited client pointer { next with running := true } where
  connections := visited.connections
  others := visited.others
  closes := visited.closes
  runs _ := rfl
  rests stops := by cases stops

theorem visited_disconnected (disconnected : client.state pointer = .disconnected)
    (results : Results) : Visited client pointer (client.visitDisconnected results pointer) := by
  have opened (fd : Int) : (client.update pointer fun connection =>
      { connection with fd := fd }).state pointer ≠ .dead := by
    rw [Client.state_update_self]
    exact fun dead => absurd (disconnected.symm.trans dead) (by simp)
  unfold Client.visitDisconnected
  cases results.socket with
  | emfile =>
      apply Visited.of_opened
      exact ⟨rfl, fun _ _ => rfl, Or.inr ⟨Iff.rfl, rfl, rfl⟩, fun running => running,
        fun _ => Or.inr (by rw [Client.state_update_self]; exact disconnected)⟩
  | failed => exact (visited_closeClient (opened (-1))).of_opened
  | opened fd =>
      dsimp only
      split
      · exact (visited_connecting (opened fd) results.inetAddr).of_opened
      · split
        · exact (visited_connecting (opened fd) _).of_opened
        · split
          · exact (visited_closeClient (opened fd)).of_opened
          · apply Visited.of_opened
            apply Visited.of_resolved
            exact visited_connecting (by exact opened fd) _

theorem visited_connecting_state (connecting : client.state pointer = .connecting)
    (results : Results) : Visited client pointer (client.visitConnecting results pointer) := by
  have living : client.state pointer ≠ .dead := by simp [connecting]
  unfold Client.visitConnecting
  cases results.connect with
  | failed => exact visited_closeClient living
  | inProgress =>
      exact ⟨rfl, fun _ _ => rfl, Or.inr ⟨Iff.rfl, rfl, rfl⟩, fun _ => rfl, fun stops => by cases stops⟩
  | connected =>
      have connects : (client.update pointer fun connection =>
          { connection with state := .connected }).state pointer = .connected :=
        Client.state_update_self client pointer _
      have alike : (client.update pointer fun connection =>
          { connection with state := .connected }).state pointer = .dead ↔
            client.state pointer = .dead := by simp [connects, living]
      dsimp only
      split
      · apply Visited.run
        exact (visited_closeClient (by simp [connects])).of_same rfl
          (fun _ apart => Client.connection_update_of_ne _ apart) alike rfl rfl rfl
      · exact ⟨rfl, fun _ apart => by simp [Client.update, apart], Or.inr ⟨alike, rfl, rfl⟩,
          fun _ => rfl, fun stops => by cases stops⟩

theorem visited_connected (connected : client.state pointer = .connected)
    (results : Results) : Visited client pointer (client.visitConnected results pointer) := by
  have living : client.state pointer ≠ .dead := by simp [connected]
  unfold Client.visitConnected
  split
  · exact (visited_closeClient living).run
  · exact ⟨rfl, fun _ _ => rfl, Or.inr ⟨Iff.rfl, rfl, rfl⟩, fun _ => rfl, fun stops => by cases stops⟩

theorem visited_visit (client : Client) (results : Results) (pointer : Nat) :
    Visited client pointer (client.visit results pointer) := by
  unfold Client.visit
  cases state : client.state pointer with
  | disconnected => exact visited_disconnected state results
  | connecting => exact visited_connecting_state state results
  | connected => exact visited_connected state results
  | dead =>
      exact ⟨rfl, fun _ _ => rfl, Or.inr ⟨Iff.rfl, rfl, rfl⟩, fun running => running,
        fun _ => Or.inl state⟩

end Visits

section Counting

variable {first second : Nat → Bool} {pointer : Nat} {list : List Nat}

theorem countP_of_same (same : ∀ other ∈ list, second other = first other) :
    list.countP second = list.countP first :=
  List.countP_congr fun other member => by rw [same other member]

/-- One element less satisfies the predicate. -/
theorem countP_of_one_less (distinct : list.Nodup) (member : pointer ∈ list)
    (before : first pointer = true) (after : second pointer = false)
    (others : ∀ other, other ≠ pointer → second other = first other) :
    list.countP first = list.countP second + 1 := by
  induction list with
  | nil => cases member
  | cons head tail ih =>
      obtain ⟨absent, distinct⟩ := List.nodup_cons.mp distinct
      rcases List.mem_cons.mp member with rfl | inside
      · have rest : tail.countP second = tail.countP first :=
          countP_of_same fun other inTail => others other fun same => absent (same ▸ inTail)
        rw [List.countP_cons_of_pos before, List.countP_cons_of_neg (by simp [after]), rest]
      · have apart : head ≠ pointer := fun same => absent (same ▸ inside)
        have less := ih distinct inside
        simp only [List.countP_cons, others head apart, less]
        omega

theorem toInt_sub_one {counter : Int32} {count : Nat} (equal : counter.toInt = (count + 1 : Nat)) :
    (counter - 1).toInt = count := by
  have bound := counter.toInt_lt
  rw [Int32.toInt_sub, equal]
  have one : (1 : Int32).toInt = 1 := rfl
  rw [one, Int.bmod_eq_of_le]
  · omega
  · omega
  · omega

theorem toInt_add_one {counter : Int32} {count : Nat} (equal : counter.toInt = count)
    (small : count + 1 < 2 ^ 31) : (counter + 1).toInt = (count + 1 : Nat) := by
  have one : (1 : Int32).toInt = 1 := rfl
  rw [Int32.toInt_add, equal, one, Int.bmod_eq_of_le]
  · omega
  · omega
  · omega

end Counting

def AllDead (client : Client) : Prop :=
  ∀ pointer ∈ client.connections, client.state pointer = .dead

/-- What holds where the control is.  As long as a pass has not set `running`, what
it has visited is dead or without a socket. -/
def Placed (client : Client) : Control → Prop
  | .loop => client.running = true ∨ AllDead client
  | .visiting rest => ∃ visited, client.connections = visited ++ rest ∧
      (client.running = false → ∀ pointer ∈ visited,
        client.state pointer = .dead ∨ client.state pointer = .disconnected)
  | .returned stopped => stopped = false → AllDead client

/-- The correct states, with what they rest on. -/
structure Sound (client : Client) : Prop where
  distinct : client.connections.Nodup
  alive : client.aliveConnections.toInt = client.living
  once : client.closed.Nodup
  dead : ∀ pointer ∈ client.closed, client.state pointer = .dead
  placed : Placed client client.control

section Runs

variable {client next : Client} {pointer : Nat} {action : Action}

theorem Visited.state_of_ne (visited : Visited client pointer next) {other : Nat}
    (apart : other ≠ pointer) : next.state other = client.state other :=
  congrArg Connection.state (visited.others other apart)

theorem Visited.dead_of_dead (visited : Visited client pointer next) {other : Nat}
    (dead : client.state other = .dead) : next.state other = .dead := by
  by_cases same : other = pointer
  · subst same
    rcases visited.closes with ⟨living, -⟩ | ⟨alike, -⟩
    · exact (living dead).elim
    · exact alike.mpr dead
  · rw [visited.state_of_ne same, dead]

theorem Visited.alive (visited : Visited client pointer next) (distinct : client.connections.Nodup)
    (member : pointer ∈ client.connections)
    (alive : client.aliveConnections.toInt = client.living) :
    next.aliveConnections.toInt = next.living := by
  have others (other : Nat) (apart : other ≠ pointer) :
      decide (next.state other ≠ .dead) = decide (client.state other ≠ .dead) := by
    rw [visited.state_of_ne apart]
  unfold Client.living at alive ⊢
  rw [visited.connections]
  rcases visited.closes with ⟨living, dead, counter, -⟩ | ⟨alike, counter, -⟩
  · rw [countP_of_one_less distinct member (by simpa using living) (by simpa using dead) others]
      at alive
    rw [counter]
    exact toInt_sub_one alive
  · rw [counter, alive, countP_of_same]
    intro other _
    by_cases same : other = pointer
    · subst same
      simp only [ne_eq, alike]
    · exact (others other same).symm

theorem Visited.once (visited : Visited client pointer next) (once : client.closed.Nodup)
    (dead : ∀ pointer ∈ client.closed, client.state pointer = .dead) :
    next.closed.Nodup ∧ ∀ pointer ∈ next.closed, next.state pointer = .dead := by
  rcases visited.closes with ⟨living, died, -, closed⟩ | ⟨-, -, closed⟩
  · rw [closed]
    refine ⟨List.nodup_cons.mpr ⟨fun member => living (dead pointer member), once⟩, ?_⟩
    intro other member
    rcases List.mem_cons.mp member with rfl | member
    · exact died
    · exact visited.dead_of_dead (dead other member)
  · rw [closed]
    exact ⟨once, fun other member => visited.dead_of_dead (dead other member)⟩

theorem Visited.placed (visited : Visited client pointer next) (distinct : client.connections.Nodup)
    {rest : List Nat} (placed : Placed client (.visiting (pointer :: rest))) :
    Placed next (.visiting rest) := by
  obtain ⟨earlier, split, atRest⟩ := placed
  refine ⟨earlier ++ [pointer], by simp [visited.connections, split], ?_⟩
  intro stops other member
  have stopped : client.running = false := by
    by_contra running
    simp [visited.runs (by simpa using running)] at stops
  rcases List.mem_append.mp member with before | here
  · have apart : other ≠ pointer := by
      rintro rfl
      rw [split] at distinct
      exact (List.nodup_append.mp distinct).2.2 other before other List.mem_cons_self rfl
    rw [visited.state_of_ne apart]
    exact atRest stopped other before
  · rw [List.mem_singleton.mp here]
    exact visited.rests stops

theorem Sound.visit (sound : Sound client) {rest : List Nat}
    (control : client.control = .visiting (pointer :: rest))
    (visited : Visited client pointer next) :
    Sound { next with control := .visiting rest } := by
  have placed := sound.placed
  rw [control] at placed
  have member : pointer ∈ client.connections := by
    obtain ⟨earlier, split, -⟩ := placed
    simp [split]
  obtain ⟨once, dead⟩ := visited.once sound.once sound.dead
  exact ⟨visited.connections ▸ sound.distinct, visited.alive sound.distinct member sound.alive,
    once, dead, visited.placed sound.distinct placed⟩

/-- Moving on without a visit. -/
theorem Sound.go (sound : Sound client) (running : Bool) {control : Control}
    (placed : Placed { client with running := running } control) :
    Sound { client with running := running, control := control } :=
  ⟨sound.distinct, sound.alive, sound.once, sound.dead, by cases control <;> exact placed⟩

theorem Sound.allDead (sound : Sound client) (none : client.aliveConnections ≤ 0) :
    AllDead client := by
  have noneLiving : client.living = 0 := by
    have bound := Int32.le_iff_toInt_le.mp none
    rw [sound.alive] at bound
    simp only [Int32.toInt_zero] at bound
    omega
  intro pointer member
  simpa using List.countP_eq_zero.mp noneLiving pointer member

theorem Sound.step (sound : Sound client) (allowed : Unstranded client action)
    (steps : step client action = some next) : Sound next := by
  have placed := sound.placed
  unfold EventClient.step at steps
  cases action with
  | loop stops =>
      cases control : client.control with
      | loop =>
          rw [control] at placed
          simp only [control] at steps
          split_ifs at steps with running stopped
          · cases steps
            exact sound.go client.running (by simp [Placed])
          · cases steps
            exact sound.go false ⟨[], rfl, by simp⟩
          · cases steps
            exact sound.go client.running fun _ => placed.resolve_left running
      | visiting rest => simp [control] at steps
      | returned stopped => simp [control] at steps
  | visit results =>
      cases control : client.control with
      | loop => simp [control] at steps
      | visiting rest =>
          cases rest with
          | nil => simp [control] at steps
          | cons pointer rest =>
              simp only [control, Option.some.injEq] at steps
              subst steps
              exact sound.visit control (visited_visit client results pointer)
      | returned stopped => simp [control] at steps
  | endPass =>
      cases control : client.control with
      | loop => simp [control] at steps
      | visiting rest =>
          cases rest with
          | nil =>
              rw [control] at placed
              obtain ⟨visited, split, atRest⟩ := placed
              rw [List.append_nil] at split
              simp only [control] at steps
              split_ifs at steps with none
              · cases steps
                exact sound.go client.running fun _ => sound.allDead none
              · cases steps
                refine sound.go client.running ?_
                rcases allowed with running | waits
                · exact Or.inl running
                · by_cases running : client.running = true
                  · exact Or.inl running
                  · refine Or.inr fun pointer member => ?_
                    have stops : client.running = false := by simpa using running
                    exact (atRest stops pointer (split ▸ member)).resolve_right
                      (waits pointer member)
          | cons pointer rest => simp [control] at steps
      | returned stopped => simp [control] at steps

theorem Sound.correct (sound : Sound client) : Correct client where
  alive := sound.alive
  once := sound.once
  returns returned := by
    have placed := sound.placed
    rw [returned] at placed
    exact placed rfl

theorem foldl_add (added : List Nat) (client : Client) :
    added.foldl Client.add client = { client with
      connections := client.connections ++ added
      aliveConnections := (added.foldl Client.add client).aliveConnections } := by
  induction added generalizing client with
  | nil => simp
  | cons pointer added ih =>
      rw [List.foldl_cons, ih]
      simp [Client.add]

theorem aliveConnections_foldl_add {added : List Nat} {client : Client} {count : Nat}
    (equal : client.aliveConnections.toInt = count) (few : count + added.length < 2 ^ 31) :
    (added.foldl Client.add client).aliveConnections.toInt = (count + added.length : Nat) := by
  induction added generalizing client count with
  | nil => simpa using equal
  | cons pointer added ih =>
      rw [List.length_cons] at few ⊢
      rw [List.foldl_cons, show count + (added.length + 1) = count + 1 + added.length by omega]
      apply ih
      · exact toInt_add_one equal (by omega)
      · omega

theorem sound_start {connection : Nat → Connection} {added : List Nat} (distinct : added.Nodup)
    (living : ∀ pointer ∈ added, (connection pointer).state ≠ .dead)
    (few : added.length < 2 ^ 31) : Sound (.start connection 0 added) := by
  have zero : (Client.new connection 0).aliveConnections.toInt = (0 : Nat) := rfl
  have counts := aliveConnections_foldl_add zero (by omega : 0 + added.length < 2 ^ 31)
  rw [Nat.zero_add] at counts
  have all : added.countP (fun pointer => (connection pointer).state ≠ .dead) = added.length :=
    List.countP_eq_length.mpr fun pointer member => by simpa using living pointer member
  have fields : Client.start connection 0 added = { Client.new connection 0 with
      connections := added
      aliveConnections := (Client.start connection 0 added).aliveConnections } :=
    foldl_add added (.new connection 0)
  rw [fields]
  exact ⟨distinct, counts.trans (by rw [← all]; rfl), List.nodup_nil, by simp [Client.new],
    Or.inl rfl⟩

/-- From a counter that is zero, and as long as no pass leaves a connection stranded,
the counter is right, each connection is closed once, and the loop ends as it should. -/
theorem correct_of_unstranded {connection : Nat → Connection} {added : List Nat}
    (distinct : added.Nodup) (living : ∀ pointer ∈ added, (connection pointer).state ≠ .dead)
    (few : added.length < 2 ^ 31) {actions : List Action}
    (run : Run step Unstranded (.start connection 0 added) actions client) : Correct client := by
  have sound : Sound client := by
    apply run.invariant _ (sound_start distinct living few)
    intro first action next holds allowed steps
    exact holds.step allowed steps
  exact sound.correct

namespace Sample

def connection (_ : Nat) : Connection :=
  ⟨-1, [], .disconnected, 0⟩

def results (socket : Socket) (connect : Connect) : Results :=
  ⟨socket, none, 0, connect, false, -1⟩

/-- The second connection gets its socket in the second pass. -/
def actions : List Action :=
  [.loop false, .visit (results (.opened 5) .failed), .visit (results .emfile .failed), .endPass,
    .loop false, .visit (results .failed .connected), .visit (results (.opened 6) .failed), .endPass,
    .loop false, .visit (results .failed .failed), .visit (results .failed .failed), .endPass]

end Sample

theorem correct_of_unstranded_sample :
    ∃ client, Run step Unstranded (.start Sample.connection 0 [1, 2]) Sample.actions client ∧
      (client.control = .returned false ∧ client.closed = [2, 1]) ∧ Correct client := by
  obtain ⟨client, run, ends⟩ : ∃ client,
      Run step Unstranded (.start Sample.connection 0 [1, 2]) Sample.actions client ∧
        (client.control = .returned false ∧ client.closed = [2, 1]) := by
    refine ⟨_, .cons trivial rfl (.cons trivial rfl (.cons trivial rfl (.cons (Or.inl rfl) rfl
      (.cons trivial rfl (.cons trivial rfl (.cons trivial rfl (.cons (Or.inl rfl) rfl
        (.cons trivial rfl (.cons trivial rfl (.cons trivial rfl (.cons (Or.inl rfl) rfl
          (.nil _)))))))))))), rfl, rfl⟩
  have distinct : [1, 2].Nodup := by decide
  exact ⟨client, run, ends, correct_of_unstranded distinct (fun _ _ => by simp [Sample.connection])
    (by decide) run⟩

/-- One connection and no descriptor left: the loop ends with the connection waiting.
And a counter that was not zero is wrong before the loop begins. -/
theorem exists_not_correct :
    (∃ client, Run step anything (.start Sample.connection 0 [1])
        [.loop false, .visit (Sample.results .emfile .failed), .endPass, .loop false] client ∧
      client.control = .returned false ∧ client.state 1 = .disconnected ∧ ¬ Correct client) ∧
    ¬ Correct (.start Sample.connection 40 [1]) := by
  constructor
  · refine ⟨_, .cons trivial rfl (.cons trivial rfl (.cons trivial rfl (.cons trivial rfl
      (.nil _)))), rfl, rfl, fun correct => ?_⟩
    have dead := correct.returns rfl 1 (by decide)
    cases dead
  · intro correct
    exact absurd correct.alive (by decide)

end Runs

end EventClient

end Libjaypea
