import Libjaypea.ClientRearm

/-!
# What arms a client

The entry of a client in the epoll is armed when the client is accepted, and
again when its own event is handled and `recv` counts more than nothing and less
than a packet.  Nothing else that a server thread does arms it.
-/

namespace Libjaypea

namespace EpollServer

variable {config : Config} {fresh : List Int}

/-- The batch is left as it is, events are added to the log, only fresh clients
are accepted, and no others have been armed. -/
structure Quiet (config : Config) (fresh : List Int) (state next : ThreadState) : Prop where
  pending : next.pending = state.pending
  grown : ∃ added, next.log = added ++ state.log ∧
    (∀ fd, .accepted fd ∈ added → fd ∈ fresh) ∧
    ∀ fd, ¬ config.isSpecial fd → next.epoll fd = Interest.armed →
      state.epoll fd = Interest.armed ∨ .accepted fd ∈ added

theorem Quiet.refl (state : ThreadState) : Quiet config fresh state state :=
  ⟨rfl, [], rfl, fun _ member => absurd member List.not_mem_nil, fun _ _ isArmed => .inl isArmed⟩

theorem Quiet.trans {first second third : ThreadState} (early : Quiet config fresh first second)
    (late : Quiet config fresh second third) : Quiet config fresh first third := by
  obtain ⟨pending, added, log, among, arms⟩ := early
  obtain ⟨pendingLater, later, logLater, amongLater, armsLater⟩ := late
  refine ⟨pendingLater.trans pending, later ++ added, ?_, ?_, ?_⟩
  · rw [logLater, log, List.append_assoc]
  · intro fd member
    rcases List.mem_append.mp member with new | old
    · exact amongLater fd new
    · exact among fd old
  · intro fd ordinary isArmed
    rcases armsLater fd ordinary isArmed with before | accepted
    · rcases arms fd ordinary before with before | accepted
      · exact .inl before
      · exact .inr (List.mem_append_right _ accepted)
    · exact .inr (List.mem_append_left _ accepted)

/-- Nothing is logged, and no entry of a client becomes armed. -/
theorem quiet_of_epoll {state next : ThreadState} (pending : next.pending = state.pending)
    (log : next.log = state.log)
    (epoll : ∀ fd, ¬ config.isSpecial fd → next.epoll fd = Interest.armed →
      state.epoll fd = Interest.armed) : Quiet config fresh state next :=
  ⟨pending, [], log, fun _ member => absurd member List.not_mem_nil,
    fun fd ordinary isArmed => .inl (epoll fd ordinary isArmed)⟩

/-- One entry is written, which is not a client's or does not become armed. -/
theorem quiet_update {state next : ThreadState} {fd : Int} {interest : Interest}
    (pending : next.pending = state.pending) (log : next.log = state.log)
    (epoll : next.epoll = Function.update state.epoll fd interest)
    (harmless : config.isSpecial fd ∨ interest ≠ Interest.armed) : Quiet config fresh state next := by
  refine quiet_of_epoll pending log fun other ordinary isArmed => ?_
  rw [epoll] at isArmed
  by_cases here : other = fd
  · subst here
    rw [Function.update_self] at isArmed
    rcases harmless with special | unarmed
    · exact absurd special ordinary
    · exact absurd isArmed unarmed
  · rwa [Function.update_of_ne here] at isArmed

theorem Quiet.foldl {α : Type} {change : ThreadState → α → ThreadState}
    (quiet : ∀ state entry, Quiet config fresh state (change state entry)) (entries : List α)
    (state : ThreadState) : Quiet config fresh state (entries.foldl change state) := by
  induction entries generalizing state with
  | nil => exact .refl state
  | cons entry entries ih => exact (quiet state entry).trans (ih _)

section Operations

variable (results : Results) (state : ThreadState)

theorem quiet_closeFd (fd : Int) : Quiet config fresh state (state.closeFd fd) :=
  quiet_update rfl rfl rfl (.inr (by decide))

theorem quiet_rearm {fd : Int} (special : config.isSpecial fd) :
    Quiet config fresh state (state.rearm results fd) := by
  unfold ThreadState.rearm
  split
  · exact quiet_update rfl rfl rfl (.inl special)
  · exact .refl state

theorem quiet_dropTimer (client timer : Int) :
    Quiet config fresh state (state.dropTimer client timer) :=
  quiet_update rfl rfl rfl (.inr (by decide))

theorem quiet_closeClientCallback (fd : Int) :
    Quiet config fresh state (ThreadState.closeClientCallback config results state fd) := by
  refine (quiet_closeFd state fd).trans ⟨rfl, [.disconnected fd, .closed fd], rfl, by simp, ?_⟩
  intro other ordinary isArmed
  have apart : other ≠ config.serverFd := fun here => ordinary (.inl here)
  dsimp only [ThreadState.closeClientCallback] at isArmed
  rw [Function.update_of_ne apart] at isArmed
  exact .inl isArmed

theorem quiet_closeOnError (fd : Int) :
    Quiet config fresh state (ThreadState.closeOnError config results state fd) :=
  (quiet_dropTimer state fd _).trans (quiet_closeClientCallback results _ fd)

theorem quiet_expire (timer : Int) :
    Quiet config fresh state (ThreadState.expire config results state timer) := by
  have dropped := @quiet_dropTimer config fresh state
    ((KeyedList.get? state.timerToClient timer).getD 0) timer
  unfold ThreadState.expire
  dsimp only
  split
  · apply Quiet.trans _ (quiet_closeClientCallback results _ _)
    apply dropped.trans
    split
    · exact quiet_update rfl rfl rfl (.inr (by decide))
    · exact quiet_of_epoll rfl rfl fun _ _ isArmed => isArmed
  · exact dropped

end Operations

section Handling

variable {results : Results} {state next : ThreadState}

theorem quiet_handleTimeouts (handles : state.handleTimeouts config results = some next) :
    Quiet config fresh state next := by
  unfold ThreadState.handleTimeouts at handles
  split at handles
  · cases handles
    exact .refl state
  · obtain ⟨taken, takes, same⟩ := Option.map_eq_some_iff.mp handles
    subst same
    have before : Quiet config fresh state taken := by
      unfold ThreadState.takeExpired at takes
      split at takes
      · cases takes
        exact quiet_of_epoll rfl rfl fun _ _ isArmed => isArmed
      · cases takes
    exact (before.trans (.foldl (quiet_expire results) _ taken)).trans
      (quiet_rearm results _ (.inr (.inl rfl)))

theorem quiet_startTimer {accepted : Accepted} (starts : state.startTimer accepted = some next) :
    Quiet config fresh state next := by
  unfold ThreadState.startTimer at starts
  split at starts
  · cases starts
    exact .refl state
  · split at starts
    · cases starts
    · dsimp only at starts
      split at starts
      · cases starts
        exact quiet_of_epoll rfl rfl fun _ _ isArmed => isArmed
      · cases starts
        exact quiet_of_epoll rfl rfl fun _ _ isArmed => isArmed

/-- A client is armed while it is accepted. -/
theorem quiet_accept {accepted : Accepted} {goesOn : Bool} (isFresh : accepted.fd ∈ fresh)
    (accepts : state.accept accepted = some (goesOn, next)) : Quiet config fresh state next := by
  unfold ThreadState.accept at accepts
  split at accepts
  · cases accepts
  · dsimp only at accepts
    split at accepts
    · cases accepts
      refine (quiet_closeFd state accepted.fd).trans
        ⟨rfl, [.closed accepted.fd, .accepted accepted.fd], rfl, ?_, fun _ _ isArmed => .inl isArmed⟩
      intro fd member
      simp only [List.mem_cons, reduceCtorEq, ClientEvent.accepted.injEq, List.not_mem_nil,
        or_false, false_or] at member
      exact member ▸ isFresh
    · obtain ⟨timed, starts, same⟩ := Option.map_eq_some_iff.mp accepts
      cases same
      have opened : Quiet config fresh state { state with
          isOpen := Function.update state.isOpen accepted.fd true
          log := .accepted accepted.fd :: state.log
          epoll := Function.update state.epoll accepted.fd (state.epoll accepted.fd).add } := by
        refine ⟨rfl, [.accepted accepted.fd], rfl, fun fd member => ?_, fun fd _ isArmed => ?_⟩
        · cases List.mem_singleton.mp member
          exact isFresh
        by_cases here : fd = accepted.fd
        · subst here
          exact .inr List.mem_cons_self
        · dsimp only at isArmed
          rw [Function.update_of_ne here] at isArmed
          exact .inl isArmed
      have counted : Quiet config fresh timed { timed with
          numConnections := timed.numConnections + 1 } :=
        quiet_of_epoll rfl rfl fun _ _ isArmed => isArmed
      exact (opened.trans (quiet_startTimer starts)).trans counted

theorem quiet_acceptLoop {accepted : List Accepted}
    (areFresh : ∀ one ∈ accepted, one.fd ∈ fresh)
    (accepts : ThreadState.acceptLoop config accepted state = some next) :
    Quiet config fresh state next := by
  induction accepted generalizing state with
  | nil =>
      cases accepts
      exact .refl _
  | cons first rest ih =>
      rw [ThreadState.acceptLoop] at accepts
      obtain ⟨isFresh, later⟩ := List.forall_mem_cons.mp areFresh
      split at accepts
      · obtain ⟨⟨goesOn, middle⟩, one, more⟩ := Option.bind_eq_some_iff.mp accepts
        dsimp only at more
        split at more
        · exact (quiet_accept isFresh one).trans (ih later more)
        · cases more
          exact quiet_accept isFresh one
      · cases accepts
        exact .refl _

theorem quiet_handleServer (areFresh : ∀ one ∈ results.accepted, one.fd ∈ fresh)
    (handles : state.handleServer config results = some next) :
    Quiet config fresh state next := by
  unfold ThreadState.handleServer at handles
  split at handles
  · obtain ⟨looped, loops, same⟩ := Option.map_eq_some_iff.mp handles
    subst same
    apply (quiet_acceptLoop areFresh loops).trans
    split
    · exact quiet_update rfl rfl rfl (.inl (.inl rfl))
    · exact .refl looped
  · cases handles
    exact .refl _

/-- The event in hand arms its client when `recv` counts more than nothing and
less than a packet; no other client is armed but those that it accepts. -/
theorem quiet_or_rearmed {fd : Int} {signal : Signal}
    (areFresh : ∀ one ∈ results.accepted, one.fd ∈ fresh)
    (handles : state.handleEvent config results fd signal = some next) :
    Quiet config fresh state next ∨
      (signal = .readable ∧ ¬ config.isSpecial fd ∧ 0 < results.recv ∧
        results.recv < packetLimit ∧ next.pending = state.pending ∧ next.log = state.log ∧
        ∀ other, other ≠ fd → next.epoll other = state.epoll other) := by
  unfold ThreadState.handleEvent at handles
  split_ifs at handles with error timeout broadcast server
  · cases handles
    exact .inl (quiet_closeOnError results state fd)
  · exact .inl (quiet_handleTimeouts handles)
  · cases handles
    exact .inl (quiet_rearm results state (.inr (.inr broadcast)))
  · exact .inl (quiet_handleServer areFresh handles)
  · cases handles
    have ordinary : ¬ config.isSpecial fd := by
      rintro (isServer | isTimeout | isBroadcast)
      · exact server isServer
      · exact timeout isTimeout
      · exact broadcast isBroadcast
    have readable : signal = .readable := by
      cases signal with
      | readable => rfl
      | error => exact absurd rfl error
    unfold ThreadState.handleClient
    dsimp only
    generalize looking : (if KeyedList.contains state.clientToTimer fd = true then state
      else { state with clientToTimer := KeyedList.set state.clientToTimer fd 0 }) = looked
    have same : looked.pending = state.pending ∧ looked.log = state.log ∧
        looked.epoll = state.epoll := by
      rw [← looking]
      split <;> exact ⟨rfl, rfl, rfl⟩
    have quiet : Quiet config fresh state looked :=
      quiet_of_epoll same.1 same.2.1 fun fd _ isArmed => by rwa [same.2.2] at isArmed
    split_ifs with unset negative limits
    · exact .inl quiet
    · exact .inl ((quiet.trans (quiet_dropTimer _ fd _)).trans
        (quiet_closeClientCallback results _ fd))
    · exact .inl quiet
    · refine .inr ⟨readable, ordinary, by omega, by omega, ?_, ?_, ?_⟩
      · unfold ThreadState.rearm
        split <;> exact same.1
      · unfold ThreadState.rearm
        split <;> exact same.2.1
      · intro other apart
        unfold ThreadState.rearm
        split
        · dsimp only
          rw [Function.update_of_ne apart, same.2.2]
        · rw [same.2.2]

end Handling

end EpollServer

end Libjaypea
