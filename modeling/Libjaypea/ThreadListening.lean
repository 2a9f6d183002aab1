import Libjaypea.Bookkeeping
import Libjaypea.ThreadChanges

/-!
# A server thread at the listening socket

What `run_thread` does with an event, seen from the listening socket alone:
in an orderly run, taking a batch and handling an event are runs of
`stepListening` of that thread.  What was proved about all interleavings of
those steps then holds of the thread with its maps, timers and clients.
-/

namespace Libjaypea

namespace EpollServer

namespace ThreadState

/-- What the thread shows of the listening socket between two events. -/
def listening (config : Config) (state : ThreadState) : ListeningThread where
  phase := if config.serverFd ∈ state.pending.map Prod.fst then .delivered else .waiting
  numConnections := state.numConnections
  server := state.epoll config.serverFd

variable {config : Config} {results : Results} {state next : ThreadState}

theorem listening_eq (pending : next.pending = state.pending)
    (numConnections : next.numConnections = state.numConnections)
    (server : next.epoll config.serverFd = state.epoll config.serverFd) :
    next.listening config = state.listening config := by
  rw [listening, listening, pending, numConnections, server]

theorem listening_phase (config : Config) (state : ThreadState) :
    (state.listening config).phase = .waiting ∨ (state.listening config).phase = .delivered := by
  unfold listening
  dsimp only
  split
  · exact .inr rfl
  · exact .inl rfl

theorem listening_rearm {fd : Int} (different : fd ≠ config.serverFd) :
    (state.rearm results fd).listening config = state.listening config := by
  unfold rearm
  split
  · exact listening_eq rfl rfl (Function.update_of_ne (Ne.symm different) ..)
  · rfl

theorem listening_dropTimer (state : ThreadState) (client : Int) {timer : Int}
    (different : timer ≠ config.serverFd) :
    (state.dropTimer client timer).listening config = state.listening config :=
  listening_eq rfl rfl (Function.update_of_ne (Ne.symm different) ..)

/-- `close_client_callback` is the step `close`. -/
theorem listening_closeClientCallback (results : Results) (state : ThreadState) {fd : Int}
    (different : fd ≠ config.serverFd) (acceptMutex : Option Nat) (id : Nat) :
    stepThread config.maxConnections acceptMutex id (state.listening config)
        (.close (results.controls config.serverFd)) =
      some (acceptMutex, (closeClientCallback config results state fd).listening config) := by
  have untouched : (state.closeFd fd).epoll config.serverFd = state.epoll config.serverFd :=
    Function.update_of_ne (Ne.symm different) ..
  have server : (closeClientCallback config results state fd).epoll config.serverFd =
      if results.controls config.serverFd then
        readdServer config.maxConnections state.numConnections (state.epoll config.serverFd)
      else state.epoll config.serverFd := by
    rw [← untouched]
    exact Function.update_self ..
  rw [stepThread, if_pos (listening_phase config state), listening, listening, server]
  rfl

theorem listening_takeExpired {timers : List Int} (takes : state.takeExpired timers = some next) :
    next.listening config = state.listening config := by
  unfold takeExpired at takes
  rw [Option.ite_none_right_eq_some] at takes
  cases takes.2
  rfl

/-- Inside the handling of an event of the listening socket. -/
def busy (config : Config) (phase : Phase) (state : ThreadState) : ListeningThread :=
  { state.listening config with phase := phase }

theorem busy_eq {phase : Phase} (numConnections : next.numConnections = state.numConnections)
    (server : next.epoll config.serverFd = state.epoll config.serverFd) :
    next.busy config phase = state.busy config phase := by
  simp only [busy, listening, numConnections, server]

theorem startTimer_keeps {accepted : Accepted} (starts : state.startTimer accepted = some next) :
    next.numConnections = state.numConnections ∧ next.epoll = state.epoll ∧
      (∀ fd, state.isOpen fd = true → next.isOpen fd = true) := by
  have opens : ∀ timer fd, state.isOpen fd = true →
      Function.update state.isOpen timer true fd = true := by
    intro timer fd opened
    by_cases same : fd = timer
    · rw [same, Function.update_self]
    · rw [Function.update_of_ne same, opened]
  unfold startTimer at starts
  split at starts
  · cases starts
    exact ⟨rfl, rfl, fun _ opened => opened⟩
  · dsimp only at starts
    split_ifs at starts
    all_goals
      cases starts
      exact ⟨rfl, rfl, opens _⟩

/-- A new connection changes the count, and nothing at the listening socket. -/
theorem accept_keeps {accepted : Accepted} {goesOn : Bool}
    (opened : state.isOpen config.serverFd = true)
    (accepts : state.accept accepted = some (goesOn, next)) :
    next.numConnections = (if goesOn then state.numConnections + 1 else state.numConnections) ∧
      next.epoll config.serverFd = state.epoll config.serverFd ∧
      next.isOpen config.serverFd = true := by
  unfold accept at accepts
  dsimp only at accepts
  split at accepts
  · cases accepts
  · rename_i fresh
    have different : config.serverFd ≠ accepted.fd := by
      intro same
      rw [← same] at fresh
      exact fresh opened
    split at accepts
    · cases accepts
      refine ⟨rfl, Function.update_of_ne different .., ?_⟩
      exact ((Function.update_of_ne different ..).trans (Function.update_of_ne different ..)).trans
        opened
    · obtain ⟨timed, starts, equal⟩ := Option.map_eq_some_iff.mp accepts
      cases equal
      obtain ⟨numConnections, epoll, isOpen⟩ := startTimer_keeps starts
      refine ⟨congrArg (· + 1) numConnections, ?_, isOpen _ ?_⟩
      · rw [epoll]
        exact Function.update_of_ne different ..
      · exact (Function.update_of_ne different ..).trans opened

end ThreadState

open Transitions (Run)

/-- The lock and the listening socket give no trouble during an event. -/
def Cooperative (config : Config) (results : Results) : Prop :=
  results.locked = true ∧ results.controls config.serverFd = true

/-- A cooperative event disturbs no thread. -/
def SparedIf (calm : Prop) (maxConnections : UInt64) (state : ListeningState)
    (action : Nat × ListeningStep) : Prop :=
  calm → Undisturbed maxConnections state action

section Runs

variable {config : Config} {results : Results} {state next : ThreadState}
variable {threads : List ListeningThread} {id : Nat} (inside : id < threads.length)
include inside

theorem run_step {calm : Prop} {maxConnections : UInt64} {acceptMutex after : Option Nat}
    {thread moved : ListeningThread} {step : ListeningStep}
    (steps : stepThread maxConnections acceptMutex id thread step = some (after, moved))
    (spared : SparedIf calm maxConnections ⟨threads.set id thread, acceptMutex⟩ (id, step)) :
    Run (stepListening maxConnections) (SparedIf calm maxConnections)
      ⟨threads.set id thread, acceptMutex⟩ [(id, step)] ⟨threads.set id moved, after⟩ := by
  apply Run.single spared
  simp [stepListening, List.getElem?_set_self inside, steps]

/-- The accept loop, with the lock taken. -/
theorem run_acceptLoop (calm : Prop) {accepted : List Accepted}
    (opened : state.isOpen config.serverFd = true)
    (loops : ThreadState.acceptLoop config accepted state = some next) :
    ∃ actions, Run (stepListening config.maxConnections) (SparedIf calm config.maxConnections)
      ⟨threads.set id (state.busy config .accepting), some id⟩ actions
      ⟨threads.set id (next.busy config .accepted), some id⟩ := by
  have leaves : ∀ last : ThreadState, ∃ actions, Run (stepListening config.maxConnections)
      (SparedIf calm config.maxConnections)
      ⟨threads.set id (last.busy config .accepting), some id⟩ actions
      ⟨threads.set id (last.busy config .accepted), some id⟩ := by
    intro last
    by_cases below : last.numConnections < config.maxConnections
    · have steps : stepThread config.maxConnections (some id) id
          (last.busy config .accepting) .leave =
          some (some id, last.busy config .accepted) := if_pos ⟨rfl, below⟩
      exact ⟨_, run_step inside steps fun _ _ _ => trivial⟩
    · have steps : stepThread config.maxConnections (some id) id
          (last.busy config .accepting) .full =
          some (some id, last.busy config .accepted) := if_pos ⟨rfl, UInt64.not_lt.mp below⟩
      exact ⟨_, run_step inside steps fun _ _ _ => trivial⟩
  induction accepted generalizing state with
  | nil =>
      cases loops
      exact leaves _
  | cons one rest ih =>
      unfold ThreadState.acceptLoop at loops
      split at loops
      · rename_i below
        obtain ⟨⟨goesOn, after⟩, accepts, later⟩ := Option.bind_eq_some_iff.mp loops
        obtain ⟨numConnections, server, stillOpen⟩ := ThreadState.accept_keeps opened accepts
        cases goesOn with
        | true =>
            obtain ⟨actions, run⟩ := ih stillOpen later
            have steps : stepThread config.maxConnections (some id) id
                (state.busy config .accepting) .accept =
                some (some id, after.busy config .accepting) := by
              rw [stepThread, if_pos ⟨rfl, below⟩]
              simp only [ThreadState.busy, ThreadState.listening, numConnections, server, if_true]
            have first := run_step inside steps (fun (_ : calm) _ _ => trivial)
            exact ⟨_, first.append run⟩
        | false =>
            cases later
            rw [← ThreadState.busy_eq numConnections server]
            exact leaves _
      · cases loops
        exact leaves _

/-- An event of the listening socket. -/
theorem run_handleServer (opened : state.isOpen config.serverFd = true)
    (handles : state.handleServer config results = some next) :
    ∃ actions, Run (stepListening config.maxConnections)
      (SparedIf (Cooperative config results) config.maxConnections)
      ⟨threads.set id (state.busy config .delivered), none⟩ actions
      ⟨threads.set id (next.busy config .waiting), none⟩ := by
  unfold ThreadState.handleServer at handles
  split at handles
  · rename_i locked
    obtain ⟨after, loops, equal⟩ := Option.map_eq_some_iff.mp handles
    obtain ⟨actions, loop⟩ :=
      run_acceptLoop inside (Cooperative config results) opened loops
    have locks : stepThread config.maxConnections none id (state.busy config .delivered)
        (.tryLock true) = some (some id, state.busy config .accepting) := rfl
    have rearms : stepThread config.maxConnections (some id) id (after.busy config .accepted)
        (.rearm (results.controls config.serverFd)) =
        some (some id, next.busy config .rearmed) := by
      have arrived : (after.busy config .accepted).phase = .accepted := rfl
      rw [stepThread, if_pos arrived, ← equal]
      split
      · simp [ThreadState.busy, ThreadState.listening]
      · rfl
    have unlocks : stepThread config.maxConnections (some id) id (next.busy config .rearmed)
        .unlock = some (none, next.busy config .waiting) := rfl
    have start := run_step inside locks fun (_ : Cooperative config results) _ _ => rfl
    have rearm := run_step inside rearms fun (calm : Cooperative config results) _ _ => calm.2
    have unlock := run_step inside unlocks fun (_ : Cooperative config results) _ _ => trivial
    exact ⟨_, start.append (loop.append (rearm.append unlock))⟩
  · rename_i failed
    cases handles
    have misses : stepThread config.maxConnections none id (state.busy config .delivered)
        (.tryLock false) = some (none, state.busy config .waiting) := rfl
    exact ⟨_, run_step inside misses fun (calm : Cooperative config results) _ _ =>
      absurd calm.1 failed⟩

/-- A client that is closed, whatever was erased before. -/
theorem run_close {dropped : ThreadState} {client : Int}
    (same : dropped.listening config = state.listening config)
    (different : client ≠ config.serverFd) (positive : state.numConnections ≠ 0) :
    ∃ actions, Run (stepListening config.maxConnections)
      (SparedIf (Cooperative config results) config.maxConnections)
      ⟨threads.set id (state.listening config), none⟩ actions
      ⟨threads.set id ((ThreadState.closeClientCallback config results dropped client).listening
        config), none⟩ := by
  have closes := ThreadState.listening_closeClientCallback results dropped different none id
  rw [same] at closes
  refine ⟨_, run_step inside closes fun calm thread found => ?_⟩
  rw [List.getElem?_set_self inside] at found
  cases found
  exact ⟨positive, fun _ => calm.2⟩

omit inside in
/-- A tracked client and its timer are not the listening socket, and are counted. -/
theorem Sound.tracked_apart (sound : Sound config state) {client timer : Int}
    (tracked : KeyedList.get? state.clientToTimer client = some timer) :
    client ≠ config.serverFd ∧ timer ≠ config.serverFd ∧ state.numConnections ≠ 0 := by
  obtain ⟨-, noClient, noTimer⟩ := sound.special config.serverFd (.inl rfl)
  have isClient := (sound.clients client).mp (tracked_iff.mpr ⟨timer, tracked⟩)
  have back := (sound.inverse client timer).mp tracked
  refine ⟨?_, ?_, ?_⟩
  · rintro rfl
    exact noClient isClient
  · rintro rfl
    rw [noTimer] at back
    cases back
  · intro zero
    have count := sound.count
    rw [zero] at count
    exact List.ne_nil_of_mem isClient (List.eq_nil_of_length_eq_zero count.symm)

theorem run_expire (sound : Sound config state) {timer client : Int}
    (tracked : KeyedList.get? state.timerToClient timer = some client)
    (closes : results.closes timer = true) :
    ∃ actions, Run (stepListening config.maxConnections)
      (SparedIf (Cooperative config results) config.maxConnections)
      ⟨threads.set id (state.listening config), none⟩ actions
      ⟨threads.set id ((ThreadState.expire config results state timer).listening config), none⟩ := by
  have forward := (sound.inverse client timer).mpr tracked
  obtain ⟨notClient, notTimer, positive⟩ := sound.tracked_apart forward
  unfold ThreadState.expire
  rw [tracked, if_pos closes]
  refine run_close inside ?_ notClient positive
  rw [← ThreadState.listening_dropTimer state client notTimer]
  refine ThreadState.listening_eq rfl rfl ?_
  dsimp only [Option.getD_some]
  split
  · exact Function.update_of_ne (Ne.symm notClient) ..
  · rfl

theorem run_expireAll (sound : Sound config state) {timers : List Int} (distinct : timers.Nodup)
    (tracked : ∀ timer ∈ timers, KeyedList.get? state.timerToClient timer ≠ none)
    (closes : ∀ timer ∈ timers, results.closes timer = true) :
    ∃ actions, Run (stepListening config.maxConnections)
      (SparedIf (Cooperative config results) config.maxConnections)
      ⟨threads.set id (state.listening config), none⟩ actions
      ⟨threads.set id ((timers.foldl (ThreadState.expire config results) state).listening config),
        none⟩ := by
  induction timers generalizing state with
  | nil => exact ⟨[], .nil _⟩
  | cons timer rest ih =>
      rw [List.nodup_cons] at distinct
      obtain ⟨client, found⟩ := Option.ne_none_iff_exists'.mp (tracked timer List.mem_cons_self)
      have closed := closes timer List.mem_cons_self
      obtain ⟨first, start⟩ := run_expire inside sound found closed
      have expired := sound.expire results found closed
      have others := tracked_expire config results distinct.1 tracked
      obtain ⟨later, finish⟩ := ih expired distinct.2 others fun other member =>
        closes other (List.mem_cons_of_mem _ member)
      exact ⟨first ++ later, start.append finish⟩

theorem run_handleTimeouts (sound : Sound config state)
    (apart : config.timeoutEpollFd ≠ config.serverFd)
    (closes : ∀ timers, results.expired = some timers →
      ∀ timer ∈ timers, results.closes timer = true)
    (handles : state.handleTimeouts config results = some next) :
    ∃ actions, Run (stepListening config.maxConnections)
      (SparedIf (Cooperative config results) config.maxConnections)
      ⟨threads.set id (state.listening config), none⟩ actions
      ⟨threads.set id (next.listening config), none⟩ := by
  unfold ThreadState.handleTimeouts at handles
  cases expired : results.expired with
  | none =>
      simp only [expired] at handles
      cases handles
      exact ⟨[], .nil _⟩
  | some timers =>
      simp only [expired] at handles
      obtain ⟨taken, takes, rfl⟩ := Option.map_eq_some_iff.mp handles
      obtain ⟨kept, distinct, tracked⟩ := sound.takeExpired takes
      rw [ThreadState.listening_rearm apart, ← ThreadState.listening_takeExpired takes]
      exact run_expireAll inside kept distinct tracked (closes timers expired)

theorem run_closeOnError (sound : Sound config state) {fd : Int}
    (tracked : fd ∈ KeyedList.keys state.clientToTimer) :
    ∃ actions, Run (stepListening config.maxConnections)
      (SparedIf (Cooperative config results) config.maxConnections)
      ⟨threads.set id (state.listening config), none⟩ actions
      ⟨threads.set id ((state.closeOnError config results fd).listening config), none⟩ := by
  obtain ⟨timer, found⟩ := tracked_iff.mp tracked
  obtain ⟨notClient, notTimer, positive⟩ := sound.tracked_apart found
  unfold ThreadState.closeOnError
  rw [found]
  exact run_close inside (ThreadState.listening_dropTimer state fd notTimer) notClient positive

theorem run_handleClient (sound : Sound config state) {fd : Int}
    (tracked : fd ∈ KeyedList.keys state.clientToTimer) :
    ∃ actions, Run (stepListening config.maxConnections)
      (SparedIf (Cooperative config results) config.maxConnections)
      ⟨threads.set id (state.listening config), none⟩ actions
      ⟨threads.set id ((state.handleClient config results fd).listening config), none⟩ := by
  obtain ⟨timer, found⟩ := tracked_iff.mp tracked
  obtain ⟨notClient, notTimer, positive⟩ := sound.tracked_apart found
  have known := KeyedList.contains_iff.mpr tracked
  unfold ThreadState.handleClient
  dsimp only
  rw [found, if_pos known]
  split_ifs
  · exact ⟨[], .nil _⟩
  · exact run_close inside (ThreadState.listening_dropTimer state fd notTimer) notClient positive
  · exact ⟨[], .nil _⟩
  · rw [ThreadState.listening_rearm notClient]
    exact ⟨[], .nil _⟩

/-- An event of anything but the listening socket. -/
theorem run_handleEvent (sound : Sound config state) {fd : Int} {signal : Signal}
    (orderly : OrderlyEvent config state results fd signal) (other : fd ≠ config.serverFd)
    (handles : state.handleEvent config results fd signal = some next) :
    ∃ actions, Run (stepListening config.maxConnections)
      (SparedIf (Cooperative config results) config.maxConnections)
      ⟨threads.set id (state.listening config), none⟩ actions
      ⟨threads.set id (next.listening config), none⟩ := by
  unfold ThreadState.handleEvent at handles
  split_ifs at handles with error timeout broadcast
  · cases handles
    apply run_closeOnError inside sound
    apply orderly.tracked
    intro special
    rw [orderly.sound special] at error
    cases error
  · rw [timeout] at other
    exact run_handleTimeouts inside sound other (orderly.closes timeout) handles
  · cases handles
    rw [ThreadState.listening_rearm other]
    exact ⟨[], .nil _⟩
  · cases handles
    apply run_handleClient inside sound
    apply orderly.tracked
    rintro (isServer | isTimeout | isBroadcast)
    · exact other isServer
    · exact timeout isTimeout
    · exact broadcast isBroadcast

end Runs

/-- The trouble that the listening socket may have in one action of a thread. -/
def Calm (config : Config) : ThreadAction → Prop
  | .wait _ => True
  | .handle results => Cooperative config results

/-- The listening socket is none of the thread's other two descriptors. -/
def Config.ServerApart (config : Config) : Prop :=
  config.timeoutEpollFd ≠ config.serverFd ∧ config.broadcastFd ≠ config.serverFd

/-- What is kept between two events: the books, and a batch without repetitions. -/
structure Steady (config : Config) (state : ThreadState) : Prop where
  sound : Sound config state
  once : (state.pending.map Prod.fst).Nodup

section Steady

variable {config : Config} {state next : ThreadState} {action : ThreadAction}

theorem steady_start (config : Config) : Steady config (ThreadState.start config) :=
  ⟨sound_start config, List.nodup_nil⟩

theorem Steady.step (steady : Steady config state) (orderly : Orderly config state action)
    (steps : stepEvents config state action = some next) : Steady config next := by
  refine ⟨steady.sound.stepEvents orderly steps, ?_⟩
  cases eventStep_of_stepEvents steps with
  | wait idle distinct isArmed => exact distinct
  | handle batch handles =>
      have once := steady.once
      rw [batch, List.map_cons, List.nodup_cons] at once
      rw [(ThreadState.follows_handleEvent handles).pending]
      exact once.2

/-- A batch delivers the event of the listening socket, if it holds it. -/
theorem run_wait {threads : List ListeningThread} {id : Nat} (inside : id < threads.length)
    {batch : List (Int × Signal)} (idle : state.pending = [])
    (isArmed : ∀ event ∈ batch, state.epoll event.1 = Interest.armed) (calm : Prop) :
    ∃ actions, Run (stepListening config.maxConnections) (SparedIf calm config.maxConnections)
      ⟨threads.set id (state.listening config), none⟩ actions
      ⟨threads.set id (ThreadState.listening config { state with
        pending := batch
        epoll := fun fd =>
          if fd ∈ batch.map Prod.fst then Interest.disarmed else state.epoll fd }), none⟩ := by
  have waiting : (state.listening config).phase = .waiting := by
    simp [ThreadState.listening, idle]
  by_cases member : config.serverFd ∈ batch.map Prod.fst
  · have armed : (state.listening config).server = Interest.armed := by
      obtain ⟨event, found, same⟩ := List.mem_map.mp member
      rw [ThreadState.listening, ← same]
      exact isArmed event found
    have delivers : stepThread config.maxConnections none id (state.listening config)
        .deliver = some (none, ThreadState.listening config
          { state with
            pending := batch
            epoll := fun fd =>
              if fd ∈ batch.map Prod.fst then Interest.disarmed else state.epoll fd }) := by
      rw [stepThread, if_pos ⟨waiting, armed⟩]
      simp only [ThreadState.listening, if_pos member]
    exact ⟨_, EpollServer.run_step inside delivers fun _ _ _ => trivial⟩
  · refine ⟨[], ?_⟩
    simp only [ThreadState.listening, idle, List.map_nil, List.not_mem_nil, if_neg member]
    exact .nil _

/-- Taking a batch and handling an event are runs at the listening socket. -/
theorem Steady.run_step (steady : Steady config state) (apart : config.ServerApart)
    {threads : List ListeningThread} {id : Nat} (inside : id < threads.length)
    (orderly : Orderly config state action) (steps : stepEvents config state action = some next) :
    ∃ actions, Run (stepListening config.maxConnections)
      (SparedIf (Calm config action) config.maxConnections)
      ⟨threads.set id (state.listening config), none⟩ actions
      ⟨threads.set id (next.listening config), none⟩ := by
  cases eventStep_of_stepEvents steps with
  | wait idle distinct isArmed => exact run_wait inside idle isArmed _
  | @handle results fd signal rest next batch handles =>
      have event := orderly fd signal rest batch
      have popped := steady.sound.pop rest
      have opened := (popped.special config.serverFd (.inl rfl)).1
      have pending : next.pending = rest := (ThreadState.follows_handleEvent handles).pending
      have once := steady.once
      rw [batch, List.map_cons, List.nodup_cons] at once
      by_cases server : fd = config.serverFd
      · subst server
        have readable := event.sound (.inl rfl)
        subst readable
        have serves : ThreadState.handleServer config results
            { state with pending := rest } = some next := by
          simpa [ThreadState.handleEvent, Ne.symm apart.1, Ne.symm apart.2] using handles
        have before : ThreadState.busy config .delivered { state with pending := rest } =
            state.listening config := by
          simp [ThreadState.busy, ThreadState.listening, batch]
        have after : next.busy config .waiting = next.listening config := by
          simp only [ThreadState.busy, ThreadState.listening, pending, if_neg once.1]
        rw [← before, ← after]
        exact run_handleServer inside opened serves
      · have same : ThreadState.listening config { state with pending := rest } =
            state.listening config := by
          have member : config.serverFd ∈ state.pending.map Prod.fst ↔
              config.serverFd ∈ rest.map Prod.fst := by
            simp [batch, Ne.symm server]
          simp only [ThreadState.listening, member]
        rw [← same]
        exact run_handleEvent inside popped
          ⟨event.tracked, event.sound, event.closes, event.timed⟩ server handles

end Steady

section Threads

variable {config : Config} {actions : List ThreadAction} {state : ThreadState}
variable {threads : List ListeningThread} {id : Nat}

/-- A whole run of a thread, among threads that rest meanwhile. -/
theorem listening_of_permitted {permitted : ThreadState → ThreadAction → Prop}
    {allowed : ListeningState → Nat × ListeningStep → Prop}
    (orderly : ∀ first action, permitted first action → Orderly config first action)
    (spares : ∀ first action listening event, permitted first action →
      SparedIf (Calm config action) config.maxConnections listening event →
      allowed listening event)
    (apart : config.ServerApart) (present : threads[id]? = some ⟨.waiting, 0, Interest.armed⟩)
    (run : Run (stepEvents config) permitted (ThreadState.start config) actions state) :
    ∃ events, Run (stepListening config.maxConnections) allowed ⟨threads, none⟩ events
      ⟨threads.set id (state.listening config), none⟩ := by
  obtain ⟨inside, same⟩ := List.getElem?_eq_some_iff.mp present
  have start : threads.set id ((ThreadState.start config).listening config) = threads := by
    have fresh : (ThreadState.start config).listening config = threads[id] := by
      rw [same]
      simp [ThreadState.listening, ThreadState.start]
    rw [fresh, List.set_getElem_self]
  have simulated : ∃ events, Run (stepListening config.maxConnections) allowed
      ⟨threads.set id ((ThreadState.start config).listening config), none⟩ events
      ⟨threads.set id (state.listening config), none⟩ := by
    refine run.simulate
      (fun state => ListeningState.mk (threads.set id (state.listening config)) none) ?_ ?_
      (steady_start config)
    · intro first action next steady permits steps
      exact steady.step (orderly first action permits) steps
    · intro first action next steady permits steps
      obtain ⟨events, spared⟩ := steady.run_step apart inside (orderly first action permits) steps
      exact ⟨events, spared.mono fun listening event =>
        spares first action listening event permits⟩
  rwa [start] at simulated

/-- An orderly thread does nothing that the listening socket does not know. -/
theorem listening_of_orderly (apart : config.ServerApart)
    (present : threads[id]? = some ⟨.waiting, 0, Interest.armed⟩)
    (run : Run (stepEvents config) (Orderly config) (ThreadState.start config) actions state) :
    ∃ events, Run (stepListening config.maxConnections) Transitions.anything ⟨threads, none⟩ events
      ⟨threads.set id (state.listening config), none⟩ :=
  listening_of_permitted (fun _ _ orderly => orderly) (fun _ _ _ _ _ _ => trivial) apart present run

/-- An orderly thread that gets the lock hears of the next connection. -/
theorem hears_of_orderly (positive : 0 < config.maxConnections) (apart : config.ServerApart)
    (run : Run (stepEvents config)
      (fun first action => Orderly config first action ∧ Calm config action)
      (ThreadState.start config) actions state) :
    Hears config.maxConnections (state.listening config) := by
  have present : (startListening 1).threads[0]? = some ⟨.waiting, 0, Interest.armed⟩ := rfl
  obtain ⟨events, undisturbed⟩ := listening_of_permitted (fun _ _ permits => permits.1)
    (fun _ _ _ _ permits spared => spared permits.2) apart present run
  have attentive := attentive_of_undisturbed positive undisturbed
  exact (attentive _ List.mem_cons_self).hears

end Threads

end EpollServer

end Libjaypea
