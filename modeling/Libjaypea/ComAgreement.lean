import Libjaypea.ComClient

/-!
# What com and comd know of each other

`com` and `comd` go through their states side by side.  What each side knows of
the other is read off the messages that it was given, and these are the first
of those that the other has sent.
-/

namespace Libjaypea

namespace Com

open Comd (ComdState ComdRoutine Server Calls Event Shell identity verified startRoutine badRoutine
  routines)
open Transitions

section Events

theorem repliesIn_append (events others : List Event) :
    repliesIn (events ++ others) = repliesIn events ++ repliesIn others :=
  List.filterMap_append

theorem writtenIn_append (events others : List Event) :
    writtenIn (events ++ others) = writtenIn events ++ writtenIn others :=
  List.filterMap_append

theorem newEvents_of_append {server next : Server} {added : List Event}
    (log : next.log = added ++ server.log) : newEvents server next = added.reverse := by
  rw [newEvents, log, List.length_append, Nat.add_sub_cancel, List.take_left]

theorem repliesIn_disconnected (fd : Int) (added : List Event) :
    repliesIn (.disconnected fd :: added).reverse = repliesIn added.reverse := by
  rw [List.reverse_cons, repliesIn_append]
  exact List.append_nil _

theorem writtenIn_disconnected (fd : Int) (added : List Event) :
    writtenIn (.disconnected fd :: added).reverse = writtenIn added.reverse := by
  rw [List.reverse_cons, writtenIn_append]
  exact List.append_nil _

end Events

/-- What `on_read` of `comd` does with a message: the result, the new state, and
what is replied and written meanwhile. -/
inductive Reads (calls : Calls) (fd : Int) (data : Bytes) (server : Server) :
    Int → Server → List Bytes → List Bytes → Prop
  | failed {result : Int} {next : Server} (negative : result < 0) :
      Reads calls fd data server result next [] []
  | refused {result : Int} {next : Server} (negative : result < 0)
      (selecting : server.state = .selectRoutine) (other : cString data ≠ routines .shell) :
      Reads calls fd data server result next [badRoutine] []
  | verified {result : Int} {next : Server} (accepted : 0 ≤ result)
      (verifying : server.state = .verifyIdentity) (named : cString data = identity)
      (state : next.state = .selectRoutine) (shell : next.shell = server.shell) :
      Reads calls fd data server result next [verified] []
  | started {result : Int} {next : Server} (accepted : 0 ≤ result)
      (selecting : server.state = .selectRoutine) (asked : cString data = routines .shell)
      (state : next.state = .exchangePackets) (shell : next.shell = server.shell)
      (client : next.shellClientFd = fd) :
      Reads calls fd data server result next [startRoutine] []
  | wrote {result : Int} {next : Server} {taken : Nat} (accepted : 0 ≤ result)
      (exchanging : server.state = .exchangePackets) (writes : calls.write = some taken)
      (state : next.state = .exchangePackets)
      (client : next.shellClientFd = server.shellClientFd) :
      Reads calls fd data server result next [] [data.take taken]

/-- What `on_read` of `comd` leaves alone, and what it logs. -/
structure Read (calls : Calls) (fd : Int) (data : Bytes) (server : Server) (result : Int)
    (next : Server) : Prop where
  clients : next.clients = server.clients
  routine : next.routine = .shell
  logged : ∃ added, next.log = added ++ server.log ∧
    Reads calls fd data server result next (repliesIn added.reverse) (writtenIn added.reverse)

section Reading

variable {server : Server} {calls : Calls} {fd : Int} {data : Bytes}

theorem negative_one : (-1 : Int) < 0 := by
  decide

theorem read_verifyIdentity (shellRoutine : server.routine = .shell)
    (verifying : server.state = .verifyIdentity) :
    Read calls fd data server (server.verifyIdentity calls fd data).1
      (server.verifyIdentity calls fd data).2 := by
  unfold Server.verifyIdentity
  by_cases named : cString data = identity
  · rw [if_neg (not_not.mpr named)]
    cases fails : calls.sendFails with
    | true =>
        simp only [Server.send, fails, if_true]
        exact ⟨rfl, shellRoutine, [_], rfl, .failed negative_one⟩
    | false =>
        simp only [Server.send, fails, Bool.false_eq_true, if_false]
        exact ⟨rfl, shellRoutine, [_], rfl, .verified (Int.natCast_nonneg _) verifying named rfl rfl⟩
  · rw [if_pos named]
    exact ⟨rfl, shellRoutine, [], rfl, .failed negative_one⟩

theorem read_selectRoutine (shellRoutine : server.routine = .shell)
    (selecting : server.state = .selectRoutine) :
    Read calls fd data server (server.selectRoutine calls fd data).1
      (server.selectRoutine calls fd data).2 := by
  unfold Server.selectRoutine
  by_cases asked : cString data = routines .shell
  · rw [if_pos asked]
    cases fails : calls.sendFails with
    | true =>
        simp only [Server.send, fails, if_true]
        exact ⟨rfl, shellRoutine, [_], rfl, .failed negative_one⟩
    | false =>
        simp only [Server.send, fails, Bool.false_eq_true, if_false]
        exact ⟨rfl, rfl, [_], rfl,
          .started (Int.natCast_nonneg _) selecting asked rfl rfl rfl⟩
  · rw [if_neg asked]
    have turnedAway : Read calls fd data server (-1) (server.send calls fd badRoutine).2 := by
      refine ⟨rfl, shellRoutine, [_], rfl, ?_⟩
      cases fails : calls.sendFails with
      | true => exact .failed negative_one
      | false => exact .refused negative_one selecting asked
    split_ifs
    · exact turnedAway
    · exact turnedAway
    · exact turnedAway

theorem read_exchangePackets (shellRoutine : server.routine = .shell)
    (exchanging : server.state = .exchangePackets) :
    Read calls fd data server (server.exchangePackets calls fd data).1
      (server.exchangePackets calls fd data).2 := by
  have failed : ∀ shell : Shell, Read calls fd data server (-1) { server with shell := shell } :=
    fun _ => ⟨rfl, shellRoutine, [], rfl, .failed negative_one⟩
  unfold Server.exchangePackets
  split
  · dsimp only
    split
    · exact failed _
    · cases writes : calls.write with
      | none => exact failed _
      | some taken =>
          exact ⟨rfl, shellRoutine, [_], rfl,
            .wrote (Int.natCast_nonneg _) exchanging writes exchanging rfl⟩
  · exact failed server.shell
  · exact failed server.shell

/-- What is logged before does not matter. -/
theorem Reads.of_record {event : Event} {result : Int} {next : Server}
    {replies written : List Bytes}
    (reads : Reads calls fd data (server.record event) result next replies written) :
    Reads calls fd data server result next replies written := by
  cases reads with
  | failed negative => exact .failed negative
  | refused negative selecting other => exact .refused negative selecting other
  | verified accepted verifying named state shell =>
      exact .verified accepted verifying named state shell
  | started accepted selecting asked state shell client =>
      exact .started accepted selecting asked state shell client
  | wrote accepted exchanging writes state client =>
      exact .wrote accepted exchanging writes state client

theorem read_onRead (shellRoutine : server.routine = .shell) :
    Read calls fd data server (server.onRead calls fd data).1 (server.onRead calls fd data).2 := by
  have received : ∀ answer : Int × Server,
      Read calls fd data (server.record (.received fd data)) answer.1 answer.2 →
      Read calls fd data server answer.1 answer.2 := by
    rintro answer ⟨clients, routine, added, log, reads⟩
    refine ⟨clients, routine, added ++ [.received fd data], ?_, ?_⟩
    · rw [log, Server.record, List.append_assoc, List.singleton_append]
    · rw [List.reverse_append, repliesIn_append, writtenIn_append]
      exact reads.of_record
  apply received
  unfold Server.onRead
  cases state : server.state with
  | verifyIdentity => exact read_verifyIdentity shellRoutine state
  | selectRoutine => exact read_selectRoutine shellRoutine state
  | exchangePackets => exact read_exchangePackets shellRoutine state

end Reading

/-- The messages that get `comd` to exchange packets, and those behind them. -/
def Asked (heard rest : List Bytes) : Prop :=
  ∃ first second, heard = first :: second :: rest ∧ cString first = identity ∧
    cString second = routines .shell

/-- A list of first parts. -/
abbrev Parts : List Bytes → List Bytes → Prop :=
  List.Forall₂ (· <+: ·)

/-- What `comd` keeps of an open connection: its state tells what it has heard,
and that what it has sent and written. -/
def Keeps (heard replied output written : List Bytes) : ComdState → Prop
  | .verifyIdentity => heard = [] ∧ replied = [] ∧ output = [] ∧ written = []
  | .selectRoutine => (∃ first, heard = [first] ∧ cString first = identity) ∧
      replied = [verified] ∧ output = [] ∧ written = []
  | .exchangePackets => replied = verified :: startRoutine :: output ∧
      ∃ rest, Asked heard rest ∧ Parts written rest

/-- What is left of that when the connection is over. -/
inductive Told : List Bytes → List Bytes → List Bytes → List Bytes → Prop
  | nothing {heard : List Bytes} : Told heard [] [] []
  | named {heard : List Bytes} : Told heard [verified] [] []
  | refused {first second : Bytes} (other : cString second ≠ routines .shell) :
      Told [first, second] [verified, badRoutine] [] []
  | exchanged {heard rest taken output written : List Bytes} (asked : Asked heard rest)
      (early : taken <+: rest) (wrote : Parts written taken) :
      Told heard (verified :: startRoutine :: output) output written

structure ComdSide (comd : Server) (link : Link) (heard replied output written : List Bytes) :
    Prop where
  routine : comd.routine = .shell
  told : Told heard replied output written
  idle : link = .waiting →
    comd.clients = [] ∧ heard = [] ∧ replied = [] ∧ output = [] ∧ written = []
  clients : ∀ fd, link = .accepted fd → comd.clients = [fd]
  keeps : ∀ fd, link = .accepted fd → Keeps heard replied output written comd.state
  client : ∀ fd, link = .accepted fd → comd.state = .exchangePackets → comd.shellClientFd = fd
  shell : comd.shell.opened = true → ∃ fd, link = .accepted fd ∧ comd.state = .exchangePackets

/-- What the state of a connected `com` tells about what it has sent and printed. -/
def Speaks (routine : ComdRoutine) (said typed printed : List Bytes) : ComdState → Prop
  | .verifyIdentity => said = [identity] ∧ typed = [] ∧ printed = []
  | .selectRoutine => said = [identity, routines routine] ∧ typed = [] ∧ printed.length = 1
  | .exchangePackets =>
      said = identity :: routines routine :: typed.map cString ∧ 2 ≤ printed.length

structure ComSide (routine : ComdRoutine) (com : Client) (said typed : List Bytes) : Prop where
  asks : com.routine = routine
  early : said <+: identity :: routines routine :: typed.map cString
  unspoken : com.connection = .connecting →
    com.state = .verifyIdentity ∧ com.printed = [] ∧ said = [] ∧ typed = []
  speaks : com.connection = .connected → Speaks routine said typed com.printed com.state
  reading : com.reading = true → com.state = .exchangePackets ∧ routine = .shell
  shell : typed ≠ [] → routine = .shell

/-- Both sides are as they should be, and the messages between them are in order. -/
structure Agreed (routine : ComdRoutine) (dialogue : Dialogue) : Prop where
  com : ComSide routine dialogue.com dialogue.said dialogue.typed
  comd : ComdSide dialogue.comd dialogue.link dialogue.heard dialogue.replied dialogue.output
    dialogue.written
  toComd : dialogue.heard ++ dialogue.toComd = dialogue.said
  toCom : dialogue.com.printed ++ dialogue.toCom.map cString = dialogue.replied.map cString

section ComSteps

variable {routine : ComdRoutine} {com : Client} {said typed : List Bytes}

theorem ComSide.die (side : ComSide routine com said typed) :
    ComSide routine { com with connection := .dead } said typed where
  asks := side.asks
  early := side.early
  unspoken alive := by cases alive
  speaks alive := by cases alive
  reading := side.reading
  shell := side.shell

theorem ComSide.connect (side : ComSide routine com said typed)
    (connecting : com.connection = .connecting) :
    ComSide routine { com with connection := .connected } (said ++ [identity]) typed := by
  obtain ⟨state, printed, rfl, rfl⟩ := side.unspoken connecting
  refine ⟨side.asks, ?_, ?_, ?_, side.reading, side.shell⟩
  · exact List.prefix_append [identity] [routines routine]
  · intro alive
    cases alive
  · intro _
    dsimp only
    rw [state]
    exact ⟨rfl, rfl, printed⟩

/-- What was typed is sent by a client that exchanges packets. -/
theorem ComSide.types (side : ComSide routine com said typed)
    (connected : com.connection = .connected) (reading : com.reading = true) (data : Bytes) :
    ComSide routine com (said ++ [cString data]) (typed ++ [data]) := by
  obtain ⟨exchanging, shell⟩ := side.reading reading
  have speaks := side.speaks connected
  rw [exchanging] at speaks
  obtain ⟨rfl, long⟩ := speaks
  have said : identity :: routines routine :: typed.map cString ++ [cString data] =
      identity :: routines routine :: (typed ++ [data]).map cString := by
    rw [List.map_append]
    rfl
  rw [said]
  refine ⟨side.asks, List.prefix_refl _, ?_, ?_, side.reading, fun _ => shell⟩
  · intro alive
    rw [connected] at alive
    cases alive
  · intro _
    rw [exchanging]
    exact ⟨rfl, long⟩

/-- A message moves the client on, and it sends its request after the first. -/
theorem ComSide.reads (side : ComSide routine com said typed)
    (connected : com.connection = .connected) (sendFails : Bool) (data : Bytes) :
    ComSide routine (if (com.onRead sendFails data).result < 0 then
        { (com.onRead sendFails data).client with connection := .dead }
      else (com.onRead sendFails data).client)
      (said ++ (com.onRead sendFails data).sent) typed := by
  have speaks := side.speaks connected
  have accepted : ¬ (data.length : Int) < 0 := by omega
  have alive : com.connection ≠ .connecting := by
    rw [connected]
    decide
  unfold Client.onRead
  cases state : com.state with
  | verifyIdentity =>
      rw [state] at speaks
      obtain ⟨rfl, rfl, printed⟩ := speaks
      cases sendFails with
      | true =>
          refine ⟨side.asks, side.early, by simp, by simp, fun reading => ?_, side.shell⟩
          obtain ⟨exchanging, _⟩ := side.reading reading
          rw [state] at exchanging
          cases exchanging
      | false =>
          simp only [Bool.false_eq_true, if_false, accepted, side.asks]
          refine ⟨rfl, List.prefix_refl _, fun connecting => absurd connecting alive,
            fun _ => ⟨rfl, rfl, by simp [printed]⟩, fun reading => ?_, side.shell⟩
          obtain ⟨exchanging, _⟩ := side.reading reading
          rw [state] at exchanging
          cases exchanging
  | selectRoutine =>
      rw [state] at speaks
      obtain ⟨rfl, rfl, printed⟩ := speaks
      simp only [accepted, if_false, List.append_nil]
      refine ⟨side.asks, List.prefix_refl _, fun connecting => absurd connecting alive,
        fun _ => ⟨rfl, by simp [printed]⟩, fun reading => ⟨rfl, ?_⟩, side.shell⟩
      simp only [Bool.or_eq_true, decide_eq_true_eq] at reading
      rcases reading with before | shell
      · exact (side.reading before).2
      · exact side.asks.symm.trans shell
  | exchangePackets =>
      rw [state] at speaks
      obtain ⟨rfl, printed⟩ := speaks
      simp only [accepted, if_false, List.append_nil]
      refine ⟨side.asks, List.prefix_refl _, fun connecting => absurd connecting alive,
        fun _ => ⟨rfl, Nat.le_trans printed ?_⟩,
        fun reading => ⟨rfl, (side.reading reading).2⟩, side.shell⟩
      rw [List.length_append]
      exact Nat.le_add_right _ _

/-- Every message that is read is printed. -/
theorem printed_onRead (com : Client) (sendFails : Bool) (data : Bytes) :
    (com.onRead sendFails data).client.printed = com.printed ++ [cString data] := by
  unfold Client.onRead
  cases com.state with
  | verifyIdentity => cases sendFails <;> rfl
  | selectRoutine => rfl
  | exchangePackets => rfl

end ComSteps

section ComdSteps

variable {comd next : Server} {link : Link} {heard replied output written : List Bytes} {fd : Int}

theorem Keeps.told {state : ComdState} (keeps : Keeps heard replied output written state) :
    Told heard replied output written := by
  cases state with
  | verifyIdentity =>
      obtain ⟨rfl, rfl, rfl, rfl⟩ := keeps
      exact .nothing
  | selectRoutine =>
      obtain ⟨_, rfl, rfl, rfl⟩ := keeps
      exact .named
  | exchangePackets =>
      obtain ⟨rfl, rest, asked, wrote⟩ := keeps
      exact .exchanged asked (List.prefix_refl rest) wrote

theorem ComdSide.accept (side : ComdSide comd .waiting heard replied output written) {added : Bool}
    (accepts : Comd.step comd (.accept fd added) = some next) :
    ComdSide next (if added then .accepted fd else .over) heard replied output written := by
  simp only [Comd.step, Option.ite_none_right_eq_some] at accepts
  obtain ⟨_, accepts⟩ := accepts
  obtain ⟨idle, rfl, rfl, rfl, rfl⟩ := side.idle rfl
  have closed : comd.shell.opened = true → False := by
    intro opened
    obtain ⟨_, linked, _⟩ := side.shell opened
    cases linked
  cases added with
  | false =>
      cases accepts
      exact ⟨side.routine, .nothing, by simp, by simp, by simp, by simp,
        fun opened => (closed opened).elim⟩
  | true =>
      cases accepts
      refine ⟨side.routine, .nothing, by simp, ?_, ?_, ?_, fun opened => (closed opened).elim⟩
      · intro other linked
        cases linked
        rw [idle]
      · intro _ _
        exact ⟨rfl, rfl, rfl, rfl⟩
      · intro _ _ exchanging
        cases exchanging

theorem opened_sclose (shell : Shell) : shell.sclose.opened = false := by
  unfold Shell.sclose
  split
  · rfl
  · rename_i closed
    exact Bool.eq_false_iff.mpr closed

theorem closeClient_log {server before : Server} {added : List Event}
    (log : server.log = added ++ before.log) :
    (server.closeClient fd).log = (.disconnected fd :: added) ++ before.log :=
  congrArg (Event.disconnected fd :: ·) log

/-- A closed connection is over, with what was told until then. -/
theorem ComdSide.close {server : Server}
    (side : ComdSide comd (.accepted fd) heard replied output written)
    (clients : server.clients = comd.clients) (routine : server.routine = .shell)
    {heardNow repliedNow : List Bytes} (told : Told heardNow repliedNow output written) :
    fd ∉ (server.closeClient fd).clients ∧
      ComdSide (server.closeClient fd) .over heardNow repliedNow output written := by
  have none : (server.closeClient fd).clients = [] := by
    rw [Server.closeClient, clients, side.clients fd rfl]
    simp
  refine ⟨?_, routine, told, by simp, by simp, by simp, by simp, fun opened => ?_⟩
  · rw [none]
    exact List.not_mem_nil
  · have closed : (server.closeClient fd).shell.opened = false := opened_sclose server.shell
    rw [closed] at opened
    cases opened

theorem Asked.append {rest : List Bytes} (asked : Asked heard rest) (data : Bytes) :
    Asked (heard ++ [data]) (rest ++ [data]) := by
  obtain ⟨first, second, rfl, named, shell⟩ := asked
  exact ⟨first, second, rfl, named, shell⟩

/-- A message that is not answered adds nothing. -/
theorem Keeps.told_append {state : ComdState} (keeps : Keeps heard replied output written state)
    (data : Bytes) : Told (heard ++ [data]) replied output written := by
  cases state with
  | verifyIdentity =>
      obtain ⟨rfl, rfl, rfl, rfl⟩ := keeps
      exact .nothing
  | selectRoutine =>
      obtain ⟨_, rfl, rfl, rfl⟩ := keeps
      exact .named
  | exchangePackets =>
      obtain ⟨rfl, rest, asked, wrote⟩ := keeps
      exact .exchanged (asked.append data) (List.prefix_append rest [data]) wrote

variable {calls : Calls} {data : Bytes} {result : Int} {replies wrote : List Bytes}

theorem ComdSide.told_of_reads (side : ComdSide comd (.accepted fd) heard replied output written)
    (reads : Reads calls fd data comd result next replies wrote) (negative : result < 0) :
    Told (heard ++ [data]) (replied ++ replies) output written ∧ wrote = [] := by
  have keeps := side.keeps fd rfl
  cases reads with
  | failed => exact ⟨by simpa using keeps.told_append data, rfl⟩
  | refused _ selecting other =>
      rw [selecting] at keeps
      obtain ⟨⟨first, rfl, _⟩, rfl, rfl, rfl⟩ := keeps
      exact ⟨.refused other, rfl⟩
  | verified accepted => omega
  | started accepted => omega
  | wrote accepted => omega

/-- A message that is taken moves the server on. -/
theorem ComdSide.taken (side : ComdSide comd (.accepted fd) heard replied output written)
    (clients : next.clients = comd.clients) (routine : next.routine = .shell)
    (reads : Reads calls fd data comd result next replies wrote) (accepted : ¬ result < 0) :
    ComdSide next (.accepted fd) (heard ++ [data]) (replied ++ replies) output
      (written ++ wrote) := by
  have keeps := side.keeps fd rfl
  have unopened : comd.state ≠ .exchangePackets → comd.shell.opened = true → False := by
    intro other opened
    obtain ⟨_, _, exchanging⟩ := side.shell opened
    exact other exchanging
  have rebuilt : ∀ state : ComdState, next.state = state →
      Keeps (heard ++ [data]) (replied ++ replies) output (written ++ wrote) state →
      (state = .exchangePackets → next.shellClientFd = fd) →
      (next.shell.opened = true → state = .exchangePackets) →
      ComdSide next (.accepted fd) (heard ++ [data]) (replied ++ replies) output
        (written ++ wrote) := by
    rintro state rfl now client opened
    refine ⟨routine, now.told, by simp, ?_, ?_, ?_, fun isOpen => ⟨fd, rfl, opened isOpen⟩⟩
    · rw [clients]
      exact side.clients
    · intro _ _
      exact now
    · intro other linked exchanging
      cases linked
      exact client exchanging
  cases reads with
  | failed negative => exact absurd negative accepted
  | refused negative => exact absurd negative accepted
  | verified _ verifying named state shell =>
      rw [verifying] at keeps unopened
      obtain ⟨rfl, rfl, rfl, rfl⟩ := keeps
      apply rebuilt _ state ⟨⟨data, rfl, named⟩, rfl, rfl, rfl⟩ (by simp)
      rw [shell]
      exact fun opened => (unopened (by decide) opened).elim
  | started _ selecting asked state shell client =>
      rw [selecting] at keeps unopened
      obtain ⟨⟨first, rfl, named⟩, rfl, rfl, rfl⟩ := keeps
      exact rebuilt _ state ⟨rfl, [], ⟨first, data, rfl, named, asked⟩, .nil⟩ (fun _ => client)
        (fun _ => rfl)
  | @wrote taken _ exchanging _ state client =>
      rw [exchanging] at keeps
      obtain ⟨rfl, rest, asked, wrote⟩ := keeps
      apply rebuilt _ state ⟨by simp, rest ++ [data], asked.append data, ?_⟩ ?_ (fun _ => rfl)
      · exact List.rel_append wrote (.cons (List.take_prefix taken data) .nil)
      · intro _
        rw [client]
        exact side.client fd rfl exchanging

/-- The loop in `main` may close the shell. -/
theorem ComdSide.shut (side : ComdSide comd link heard replied output written) {shell : Shell}
    (closes : shell.opened = true → comd.shell.opened = true) :
    ComdSide { comd with shell := shell } link heard replied output written where
  routine := side.routine
  told := side.told
  idle := side.idle
  clients := side.clients
  keeps := side.keeps
  client := side.client
  shell opened := side.shell (closes opened)

/-- What the shell puts out is sent behind the two replies. -/
theorem ComdSide.forwards (side : ComdSide comd link heard replied output written)
    (opened : comd.shell.opened = true) (data : Bytes) :
    ComdSide comd link heard (replied ++ [data]) (output ++ [data]) written := by
  obtain ⟨fd, rfl, exchanging⟩ := side.shell opened
  have keeps := side.keeps fd rfl
  rw [exchanging] at keeps
  obtain ⟨rfl, rest, asked, wrote⟩ := keeps
  have now : Keeps heard ((verified :: startRoutine :: output) ++ [data]) (output ++ [data]) written
      comd.state := by
    rw [exchanging]
    exact ⟨rfl, rest, asked, wrote⟩
  refine ⟨side.routine, now.told, by simp, side.clients, ?_, side.client, side.shell⟩
  intro _ _
  exact now

end ComdSteps

section Agreement

variable {routine : ComdRoutine} {dialogue next : Dialogue}

theorem agreed_start {comd : Server} (routine : ComdRoutine) (idle : comd.clients = [])
    (shellRoutine : comd.routine = .shell) (closed : comd.shell.opened = false) :
    Agreed routine (.start routine comd) where
  com := ⟨rfl, List.nil_prefix, fun _ => ⟨rfl, rfl, rfl, rfl⟩, by simp [Dialogue.start, Client.start],
    by simp [Dialogue.start, Client.start], fun typed => absurd rfl typed⟩
  comd := ⟨shellRoutine, .nothing, fun _ => ⟨idle, rfl, rfl, rfl, rfl⟩, by simp [Dialogue.start],
    by simp [Dialogue.start], by simp [Dialogue.start], fun opened => by
      rw [Dialogue.start, closed] at opened
      cases opened⟩
  toComd := rfl
  toCom := rfl

/-- What `com` sends is on its way to `comd`. -/
theorem Agreed.toComd_say (agreed : Agreed routine dialogue) (messages : List Bytes) :
    dialogue.heard ++ (dialogue.toComd ++ messages) = dialogue.said ++ messages := by
  rw [← List.append_assoc, agreed.toComd]

theorem Agreed.connect (agreed : Agreed routine dialogue) {sendFails : Bool}
    (steps : dialogue.connect sendFails = some next) : Agreed routine next := by
  rw [Dialogue.connect, Option.ite_none_right_eq_some] at steps
  obtain ⟨connecting, steps⟩ := steps
  split at steps
  · cases steps
    exact ⟨agreed.com.die, agreed.comd, agreed.toComd, agreed.toCom⟩
  · cases steps
    exact ⟨agreed.com.connect connecting, agreed.comd, agreed.toComd_say [identity], agreed.toCom⟩

theorem Agreed.comReads (agreed : Agreed routine dialogue) {sendFails : Bool}
    (steps : dialogue.comReads sendFails = some next) : Agreed routine next := by
  unfold Dialogue.comReads at steps
  split at steps
  · cases steps
  · rename_i data rest waiting
    simp only [Option.ite_none_right_eq_some, Option.some_inj] at steps
    obtain ⟨connected, rfl⟩ := steps
    refine ⟨agreed.com.reads connected sendFails data, agreed.comd,
      agreed.toComd_say _, ?_⟩
    have told := agreed.toCom
    rw [waiting, List.map_cons] at told
    refine Eq.trans ?_ told
    dsimp only
    split
    · rw [printed_onRead, List.append_assoc, List.singleton_append]
    · rw [printed_onRead, List.append_assoc, List.singleton_append]

theorem Agreed.comTypes (agreed : Agreed routine dialogue) {data : Bytes} {sendFails : Bool}
    (steps : dialogue.comTypes data sendFails = some next) : Agreed routine next := by
  rw [Dialogue.comTypes, Option.ite_none_right_eq_some] at steps
  obtain ⟨⟨connected, reading, _⟩, steps⟩ := steps
  split at steps
  · cases steps
    exact ⟨agreed.com.die, agreed.comd, agreed.toComd, agreed.toCom⟩
  · cases steps
    exact ⟨agreed.com.types connected reading data, agreed.comd, agreed.toComd_say [cString data],
      agreed.toCom⟩

theorem Agreed.comCloses (agreed : Agreed routine dialogue)
    (steps : dialogue.comCloses = some next) : Agreed routine next := by
  rw [Dialogue.comCloses, Option.ite_none_right_eq_some] at steps
  obtain ⟨_, steps⟩ := steps
  cases steps
  exact ⟨agreed.com.die, agreed.comd, agreed.toComd, agreed.toCom⟩

theorem Agreed.accept (agreed : Agreed routine dialogue) {fd : Int} {added : Bool}
    (steps : dialogue.accept fd added = some next) : Agreed routine next := by
  rw [Dialogue.accept, Option.ite_none_right_eq_some] at steps
  obtain ⟨waiting, steps⟩ := steps
  obtain ⟨server, accepts, rfl⟩ := Option.map_eq_some_iff.mp steps
  have side := agreed.comd
  rw [waiting] at side
  exact ⟨agreed.com, side.accept accepts, agreed.toComd, agreed.toCom⟩

/-- The server's replies are on their way to `com`. -/
theorem Agreed.toCom_reply (agreed : Agreed routine dialogue) (replies : List Bytes) :
    dialogue.com.printed ++ (dialogue.toCom ++ replies).map cString =
      (dialogue.replied ++ replies).map cString := by
  rw [List.map_append, List.map_append, ← List.append_assoc, agreed.toCom]

theorem Agreed.comdReads (agreed : Agreed routine dialogue) {calls : Calls}
    (steps : dialogue.comdReads calls = some next) : Agreed routine next := by
  unfold Dialogue.comdReads at steps
  split at steps
  · rename_i fd data rest linked waiting
    obtain ⟨server, handles, rfl⟩ := Option.map_eq_some_iff.mp steps
    have side := agreed.comd
    rw [linked] at side
    have heard : (dialogue.heard ++ [data]) ++ rest = dialogue.said := by
      rw [List.append_assoc, List.singleton_append, ← waiting]
      exact agreed.toComd
    refine ⟨agreed.com, ?_, heard, agreed.toCom_reply _⟩
    obtain ⟨clients, shellRoutine, added, log, reads⟩ :=
      @read_onRead dialogue.comd calls fd data side.routine
    simp only [Comd.step, Option.ite_none_right_eq_some] at handles
    obtain ⟨_, handles⟩ := handles
    dsimp only [Dialogue.served]
    split_ifs at handles with failed
    · cases handles
      obtain ⟨told, silent⟩ := side.told_of_reads reads failed
      obtain ⟨gone, closed⟩ := side.close clients shellRoutine told
      rw [if_neg gone, newEvents_of_append (closeClient_log log), repliesIn_disconnected,
        writtenIn_disconnected, silent, List.append_nil]
      exact closed
    · cases handles
      have stays := side.clients fd rfl
      rw [newEvents_of_append log, clients, stays, if_pos (List.mem_singleton_self fd)]
      exact side.taken clients shellRoutine reads failed
  · cases steps

theorem Agreed.comdCloses (agreed : Agreed routine dialogue)
    (steps : dialogue.comdCloses = some next) : Agreed routine next := by
  unfold Dialogue.comdCloses at steps
  split at steps
  · rename_i fd linked
    obtain ⟨server, closes, rfl⟩ := Option.map_eq_some_iff.mp steps
    have side := agreed.comd
    rw [linked] at side
    simp only [Comd.step, Option.ite_none_right_eq_some] at closes
    obtain ⟨_, closes⟩ := closes
    cases closes
    obtain ⟨gone, closed⟩ := side.close rfl side.routine side.told
    refine ⟨agreed.com, ?_, agreed.toComd, agreed.toCom_reply _⟩
    dsimp only [Dialogue.served]
    rw [if_neg gone, newEvents_of_append (closeClient_log (List.nil_append _).symm),
      repliesIn_disconnected, writtenIn_disconnected]
    simpa [repliesIn, writtenIn] using closed
  · cases steps

theorem opened_of_sclose {shell : Shell} (opened : shell.sclose.opened = true) :
    shell.opened = true := by
  rw [opened_sclose] at opened
  cases opened

theorem Agreed.forward (agreed : Agreed routine dialogue) {output : Comd.Output}
    (steps : dialogue.forward output = some next) : Agreed routine next := by
  obtain ⟨server, forwards, rfl⟩ := Option.map_eq_some_iff.mp steps
  have kept : ComdSide server dialogue.link dialogue.heard dialogue.replied dialogue.output
      dialogue.written := by
    simp only [Comd.step] at forwards
    split at forwards
    · cases output with
      | failed =>
          cases forwards
          exact agreed.comd.shut opened_of_sclose
      | received data sendFails =>
          cases forwards
          apply agreed.comd.shut
          split
          · exact opened_of_sclose
          · exact id
    · cases forwards
      exact agreed.comd
  cases output with
  | failed => exact ⟨agreed.com, kept, agreed.toComd, agreed.toCom⟩
  | received data sendFails =>
      cases sendFails with
      | true => exact ⟨agreed.com, kept, agreed.toComd, agreed.toCom⟩
      | false =>
          dsimp only
          split
          · rename_i opened
            have same : server = dialogue.comd := by
              simp only [Comd.step, opened.1, if_true] at forwards
              cases forwards
              rfl
            subst same
            exact ⟨agreed.com, agreed.comd.forwards opened.1 data, agreed.toComd,
              agreed.toCom_reply [data]⟩
          · exact ⟨agreed.com, kept, agreed.toComd, agreed.toCom⟩

/-- No step of either side spoils the agreement. -/
theorem Agreed.step (agreed : Agreed routine dialogue) {action : Action}
    (steps : dialogue.step action = some next) : Agreed routine next := by
  cases action with
  | connect sendFails => exact agreed.connect steps
  | comReads sendFails => exact agreed.comReads steps
  | comTypes data sendFails => exact agreed.comTypes steps
  | comCloses => exact agreed.comCloses steps
  | accept fd added => exact agreed.accept steps
  | comdReads calls => exact agreed.comdReads steps
  | comdCloses => exact agreed.comdCloses steps
  | forward output => exact agreed.forward steps

end Agreement

end Com

end Libjaypea
