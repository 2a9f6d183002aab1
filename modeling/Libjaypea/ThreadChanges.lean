import Libjaypea.EpollThread

/-!
# What handling an event can change

Whatever the system calls return, the handling of an event takes nothing out
of the log or the batch, and keeps one entry for each client.
-/

namespace Libjaypea

namespace EpollServer

namespace ThreadState

/-- The clients of the broadcasts. -/
def clients (state : ThreadState) : List Int :=
  KeyedList.keys state.clientToTimer

structure Follows (state next : ThreadState) : Prop where
  distinct : state.clients.Nodup → next.clients.Nodup
  log : state.log <:+ next.log
  pending : next.pending = state.pending

theorem Follows.refl (state : ThreadState) : Follows state state :=
  ⟨id, List.suffix_rfl, rfl⟩

theorem Follows.trans {first second third : ThreadState} (earlier : Follows first second)
    (later : Follows second third) : Follows first third :=
  ⟨later.distinct ∘ earlier.distinct, earlier.log.trans later.log,
    later.pending.trans earlier.pending⟩

section Follows

variable {config : Config} {results : Results} {state next : ThreadState}

/-- What touches neither the map, the log nor the batch. -/
theorem follows_of_same (clientToTimer : next.clientToTimer = state.clientToTimer)
    (log : next.log = state.log) (pending : next.pending = state.pending) : Follows state next := by
  refine ⟨?_, log ▸ List.suffix_rfl, pending⟩
  unfold clients
  rw [clientToTimer]
  exact id

theorem follows_rearm (results : Results) (state : ThreadState) (fd : Int) :
    Follows state (state.rearm results fd) := by
  unfold rearm
  split
  · exact follows_of_same rfl rfl rfl
  · exact .refl state

theorem follows_dropTimer (state : ThreadState) (client timer : Int) :
    Follows state (state.dropTimer client timer) := by
  refine ⟨fun distinct => ?_, List.suffix_rfl, rfl⟩
  exact distinct.sublist (KeyedList.keys_erase_sublist state.clientToTimer client)

theorem follows_closeClientCallback (config : Config) (results : Results) (state : ThreadState)
    (fd : Int) : Follows state (closeClientCallback config results state fd) :=
  ⟨id, ⟨[.disconnected fd, .closed fd], rfl⟩, rfl⟩

theorem follows_expire (config : Config) (results : Results) (state : ThreadState) (timer : Int) :
    Follows state (expire config results state timer) := by
  unfold expire
  dsimp only
  have dropped := follows_dropTimer state ((KeyedList.get? state.timerToClient timer).getD 0) timer
  split
  · refine dropped.trans (.trans ?_ (follows_closeClientCallback config results _ _))
    exact follows_of_same rfl rfl rfl
  · exact dropped

theorem follows_expireAll (config : Config) (results : Results) (state : ThreadState)
    (timers : List Int) : Follows state (timers.foldl (expire config results) state) := by
  induction timers generalizing state with
  | nil => exact .refl state
  | cons timer rest ih => exact (follows_expire config results state timer).trans (ih _)

theorem follows_handleTimeouts (handles : state.handleTimeouts config results = some next) :
    Follows state next := by
  unfold handleTimeouts at handles
  split at handles
  · cases handles
    exact .refl state
  · obtain ⟨taken, takes, rfl⟩ := Option.map_eq_some_iff.mp handles
    unfold takeExpired at takes
    rw [Option.ite_none_right_eq_some] at takes
    obtain ⟨-, takes⟩ := takes
    have same : Follows state taken := by
      cases takes
      exact follows_of_same rfl rfl rfl
    exact (same.trans (follows_expireAll config results taken _)).trans (follows_rearm results _ _)

theorem follows_startTimer {accepted : Accepted} (starts : state.startTimer accepted = some next) :
    Follows state next := by
  unfold startTimer at starts
  split at starts
  · cases starts
    exact .refl state
  · rename_i timer created
    dsimp only at starts
    split_ifs at starts
    all_goals cases starts
    · refine ⟨fun distinct => ?_, List.suffix_rfl, rfl⟩
      exact KeyedList.nodup_keys_set distinct accepted.fd timer
    · refine ⟨fun distinct => ?_, List.suffix_rfl, rfl⟩
      exact KeyedList.nodup_keys_set distinct accepted.fd timer
    · exact follows_of_same rfl rfl rfl

theorem follows_accept {accepted : Accepted} {goesOn : Bool}
    (accepts : state.accept accepted = some (goesOn, next)) : Follows state next := by
  unfold accept at accepts
  dsimp only at accepts
  split_ifs at accepts
  · cases accepts
    exact ⟨id, ⟨[.closed accepted.fd, .accepted accepted.fd], rfl⟩, rfl⟩
  · obtain ⟨timed, starts, equal⟩ := Option.map_eq_some_iff.mp accepts
    cases equal
    have opened : Follows state { state with
        isOpen := Function.update state.isOpen accepted.fd true
        log := .accepted accepted.fd :: state.log
        epoll := Function.update state.epoll accepted.fd (state.epoll accepted.fd).add } :=
      ⟨id, ⟨[.accepted accepted.fd], rfl⟩, rfl⟩
    exact (opened.trans (follows_startTimer starts)).trans (follows_of_same rfl rfl rfl)

theorem follows_acceptLoop {accepted : List Accepted}
    (loops : acceptLoop config accepted state = some next) : Follows state next := by
  induction accepted generalizing state with
  | nil =>
      cases loops
      exact .refl _
  | cons one rest ih =>
      unfold acceptLoop at loops
      split at loops
      · obtain ⟨⟨goesOn, after⟩, accepts, later⟩ := Option.bind_eq_some_iff.mp loops
        dsimp only at later
        split at later
        · exact (follows_accept accepts).trans (ih later)
        · cases later
          exact follows_accept accepts
      · cases loops
        exact .refl _

theorem follows_handleServer (handles : state.handleServer config results = some next) :
    Follows state next := by
  unfold handleServer at handles
  split at handles
  · obtain ⟨after, loops, rfl⟩ := Option.map_eq_some_iff.mp handles
    refine (follows_acceptLoop loops).trans ?_
    split
    · exact follows_of_same rfl rfl rfl
    · exact .refl after
  · cases handles
    exact .refl _

theorem follows_handleClient (config : Config) (results : Results) (state : ThreadState)
    (fd : Int) : Follows state (state.handleClient config results fd) := by
  unfold handleClient
  dsimp only
  have looked : Follows state
      (if KeyedList.contains state.clientToTimer fd then state
      else { state with clientToTimer := KeyedList.set state.clientToTimer fd 0 }) := by
    split
    · exact .refl state
    · refine ⟨fun distinct => ?_, List.suffix_rfl, rfl⟩
      exact KeyedList.nodup_keys_set distinct fd 0
  generalize (if KeyedList.contains state.clientToTimer fd then state
    else { state with clientToTimer := KeyedList.set state.clientToTimer fd 0 }) = after at looked ⊢
  split_ifs
  all_goals first
    | exact looked
    | exact looked.trans (follows_rearm results _ fd)
    | exact (looked.trans (follows_dropTimer _ fd _)).trans
        (follows_closeClientCallback config results _ fd)

theorem follows_handleEvent {fd : Int} {signal : Signal}
    (handles : state.handleEvent config results fd signal = some next) : Follows state next := by
  unfold handleEvent at handles
  split_ifs at handles
  · cases handles
    exact (follows_dropTimer state fd _).trans (follows_closeClientCallback config results _ fd)
  · exact follows_handleTimeouts handles
  · cases handles
    exact follows_rearm results state fd
  · exact follows_handleServer handles
  · cases handles
    exact follows_handleClient config results state fd

/-- What a step of the thread keeps, also when it takes a batch. -/
theorem stepEvents_keeps {action : ThreadAction} (steps : stepEvents config state action = some next) :
    (state.clients.Nodup → next.clients.Nodup) ∧ state.log <:+ next.log := by
  cases eventStep_of_stepEvents steps with
  | wait idle distinct isArmed => exact ⟨id, List.suffix_rfl⟩
  | handle batch handles =>
      have follows := follows_handleEvent handles
      exact ⟨follows.distinct, follows.log⟩

end Follows

end ThreadState

end EpollServer

end Libjaypea
