import Libjaypea.Transitions
import Mathlib.Data.List.Basic

/-!
# The shared listening socket

Every server thread has the listening socket in its own epoll, with
`EPOLLET | EPOLLONESHOT`: an event disarms it.  The threads take turns by
`accept_mutex`, and arm the socket again after accepting, remove it when they
are full, and add it when a full thread closes a connection.
-/

namespace Libjaypea

/-- The entry of a descriptor in an epoll: none, or a one-shot one that is
armed or not. -/
abbrev Interest := Option Bool

namespace Interest

def armed : Interest := some true

def disarmed : Interest := some false

/-- `EPOLL_CTL_ADD` fails with `EEXIST` on an entry. -/
def add : Interest → Interest
  | none => armed
  | some isArmed => some isArmed

/-- `EPOLL_CTL_MOD` fails with `ENOENT` without an entry. -/
def mod : Interest → Interest
  | none => none
  | some _ => armed

/-- `EPOLL_CTL_DEL` -/
def del (_ : Interest) : Interest := none

end Interest

namespace EpollServer

/-- The listening socket behind the accept loop. -/
def rearmServer (maxConnections numConnections : UInt64) (server : Interest) : Interest :=
  if numConnections < maxConnections then server.mod else server.del

/-- The listening socket after `close_client_callback`. -/
def readdServer (maxConnections numConnections : UInt64) (server : Interest) : Interest :=
  if maxConnections ≤ numConnections then server.add else server

inductive Phase
  /-- No event of the listening socket is in hand. -/
  | waiting
  /-- An event of the listening socket lies in the current batch. -/
  | delivered
  /-- The mutex is locked and the accept loop runs. -/
  | accepting
  /-- The accept loop is left. -/
  | accepted
  /-- The socket is armed or removed, and the mutex still locked. -/
  | rearmed
  deriving DecidableEq, Repr

structure ListeningThread where
  phase : Phase
  numConnections : UInt64
  server : Interest

structure ListeningState where
  threads : List ListeningThread
  /-- The thread that holds `accept_mutex`. -/
  acceptMutex : Option Nat

/-- What a thread does next.  `try_lock` may fail whether the mutex is free or
not; the booleans of the last two tell whether their `epoll_ctl` succeeds. -/
inductive ListeningStep
  | deliver
  | tryLock (locked : Bool)
  /-- A connection is accepted and added to the epoll. -/
  | accept
  /-- `accept` has no connection, or the new one is given up. -/
  | leave
  /-- The condition of the accept loop fails. -/
  | full
  | rearm (succeeds : Bool)
  | unlock
  /-- `close_client_callback`, in the handling of another event. -/
  | close (succeeds : Bool)
  deriving DecidableEq, Repr

def stepThread (maxConnections : UInt64) (acceptMutex : Option Nat) (id : Nat)
    (thread : ListeningThread) : ListeningStep → Option (Option Nat × ListeningThread)
  | .deliver =>
      if thread.phase = .waiting ∧ thread.server = Interest.armed then
        some (acceptMutex, { thread with phase := .delivered, server := Interest.disarmed })
      else none
  | .tryLock true =>
      if thread.phase = .delivered ∧ acceptMutex = none then
        some (some id, { thread with phase := .accepting })
      else none
  | .tryLock false =>
      -- The source has no `else` here: the event is done.
      if thread.phase = .delivered then some (acceptMutex, { thread with phase := .waiting })
      else none
  | .accept =>
      if thread.phase = .accepting ∧ thread.numConnections < maxConnections then
        some (acceptMutex, { thread with numConnections := thread.numConnections + 1 })
      else none
  | .leave =>
      if thread.phase = .accepting ∧ thread.numConnections < maxConnections then
        some (acceptMutex, { thread with phase := .accepted })
      else none
  | .full =>
      if thread.phase = .accepting ∧ maxConnections ≤ thread.numConnections then
        some (acceptMutex, { thread with phase := .accepted })
      else none
  | .rearm succeeds =>
      if thread.phase = .accepted then
        some (acceptMutex, { thread with
          phase := .rearmed
          server :=
            if succeeds then rearmServer maxConnections thread.numConnections thread.server
            else thread.server })
      else none
  | .unlock =>
      if thread.phase = .rearmed then some (none, { thread with phase := .waiting }) else none
  | .close succeeds =>
      if thread.phase = .waiting ∨ thread.phase = .delivered then
        some (acceptMutex, { thread with
          numConnections := thread.numConnections - 1
          server :=
            if succeeds then readdServer maxConnections thread.numConnections thread.server
            else thread.server })
      else none

def stepListening (maxConnections : UInt64) (state : ListeningState)
    (action : Nat × ListeningStep) : Option ListeningState :=
  state.threads[action.1]?.bind fun thread =>
    (stepThread maxConnections state.acceptMutex action.1 thread action.2).map fun result =>
      ⟨state.threads.set action.1 result.2, result.1⟩

def startListening (numThreads : Nat) : ListeningState :=
  ⟨List.replicate numThreads ⟨.waiting, 0, Interest.armed⟩, none⟩

/-- A thread between two events of the listening socket hears of the next
connection, unless it is full. -/
def Hears (maxConnections : UInt64) (thread : ListeningThread) : Prop :=
  thread.phase = .waiting →
    (thread.numConnections < maxConnections → thread.server = Interest.armed) ∧
      (thread.numConnections = maxConnections → thread.server = none)

/-- The lock is taken at the first try, `epoll_ctl` does not fail, and what is
closed was counted. -/
def Undisturbed (maxConnections : UInt64) (state : ListeningState) (action : Nat × ListeningStep) :
    Prop :=
  ∀ thread, state.threads[action.1]? = some thread →
    match action.2 with
    | .tryLock locked => locked = true
    | .rearm succeeds => succeeds = true
    | .close succeeds =>
        thread.numConnections ≠ 0 ∧ (maxConnections ≤ thread.numConnections → succeeds = true)
    | _ => True

/-- The state of the listening socket in each phase of a thread. -/
structure Attentive (maxConnections : UInt64) (thread : ListeningThread) : Prop where
  bounded : thread.numConnections ≤ maxConnections
  registered : thread.server =
    match thread.phase with
    | .waiting | .rearmed =>
        if thread.numConnections < maxConnections then Interest.armed else none
    | _ => Interest.disarmed
  room : thread.phase = .delivered → thread.numConnections < maxConnections

section Counter

variable {number bound : UInt64}

theorem toNat_add_one (below : number < bound) : (number + 1).toNat = number.toNat + 1 := by
  have large := UInt64.lt_iff_toNat_lt.mp below
  have small := bound.toNat_lt
  rw [UInt64.toNat_add, UInt64.toNat_one]
  omega

theorem toNat_sub_one (positive : number ≠ 0) : (number - 1).toNat = number.toNat - 1 := by
  have nonzero : number.toNat ≠ 0 := fun zero => positive (UInt64.toNat_inj.mp zero)
  have small := number.toNat_lt
  rw [UInt64.toNat_sub, UInt64.toNat_one]
  omega

theorem add_one_le (below : number < bound) : number + 1 ≤ bound := by
  have large := UInt64.lt_iff_toNat_lt.mp below
  rw [UInt64.le_iff_toNat_le, toNat_add_one below]
  omega

theorem sub_one_lt (positive : number ≠ 0) (inside : number ≤ bound) : number - 1 < bound := by
  have nonzero : number.toNat ≠ 0 := fun zero => positive (UInt64.toNat_inj.mp zero)
  have small := UInt64.le_iff_toNat_le.mp inside
  rw [UInt64.lt_iff_toNat_lt, toNat_sub_one positive]
  omega

end Counter

theorem Attentive.hears {maxConnections : UInt64} {thread : ListeningThread}
    (attentive : Attentive maxConnections thread) : Hears maxConnections thread := by
  intro waiting
  have registered := attentive.registered
  rw [waiting] at registered
  constructor
  · intro below
    simpa [below] using registered
  · intro full
    have notBelow : ¬ thread.numConnections < maxConnections := by simp [full]
    simpa [notBelow] using registered

/-- A thread that closes a connection has room again, and adds the listening
socket if it was full. -/
theorem Attentive.close {maxConnections : UInt64} {thread : ListeningThread}
    (attentive : Attentive maxConnections thread) {succeeds : Bool}
    (positive : thread.numConnections ≠ 0)
    (added : maxConnections ≤ thread.numConnections → succeeds = true)
    (phases : thread.phase = .waiting ∨ thread.phase = .delivered) :
    Attentive maxConnections { thread with
      numConnections := thread.numConnections - 1
      server :=
        if succeeds then readdServer maxConnections thread.numConnections thread.server
        else thread.server } := by
  obtain ⟨bounded, registered, room⟩ := attentive
  have below : thread.numConnections - 1 < maxConnections := sub_one_lt positive bounded
  refine ⟨UInt64.le_of_lt below, ?_, fun _ => below⟩
  rcases phases with waiting | delivered
  · rw [waiting] at registered ⊢
    by_cases full : maxConnections ≤ thread.numConnections
    · have notBelow : ¬ thread.numConnections < maxConnections := UInt64.not_lt.mpr full
      rw [if_neg notBelow] at registered
      simp only [added full, if_true, readdServer, if_pos full, registered, if_pos below]
      rfl
    · have roomLeft : thread.numConnections < maxConnections := UInt64.not_le.mp full
      rw [if_pos roomLeft] at registered
      simp [readdServer, full, registered, below]
  · rw [delivered] at registered ⊢
    have full : ¬ maxConnections ≤ thread.numConnections := UInt64.not_le.mpr (room delivered)
    simp [readdServer, full, registered]

/-- One step of an undisturbed thread. -/
theorem Attentive.stepThread {maxConnections : UInt64} {acceptMutex after : Option Nat} {id : Nat}
    {thread next : ListeningThread} {step : ListeningStep}
    (attentive : Attentive maxConnections thread)
    (undisturbed : match step with
      | .tryLock locked => locked = true
      | .rearm succeeds => succeeds = true
      | .close succeeds =>
          thread.numConnections ≠ 0 ∧ (maxConnections ≤ thread.numConnections → succeeds = true)
      | _ => True)
    (steps : EpollServer.stepThread maxConnections acceptMutex id thread step =
      some (after, next)) : Attentive maxConnections next := by
  have ⟨bounded, registered, room⟩ := attentive
  cases step with
  | deliver =>
      simp only [EpollServer.stepThread, Option.ite_none_right_eq_some] at steps
      obtain ⟨⟨waiting, isArmed⟩, steps⟩ := steps
      cases steps
      refine ⟨bounded, rfl, fun _ => ?_⟩
      rw [waiting, isArmed] at registered
      by_contra full
      simp [full, Interest.armed] at registered
  | tryLock locked =>
      cases undisturbed
      simp only [EpollServer.stepThread, Option.ite_none_right_eq_some] at steps
      obtain ⟨⟨delivered, -⟩, steps⟩ := steps
      cases steps
      rw [delivered] at registered
      exact ⟨bounded, registered, fun phase => by cases phase⟩
  | accept =>
      simp only [EpollServer.stepThread, Option.ite_none_right_eq_some] at steps
      obtain ⟨⟨accepting, below⟩, steps⟩ := steps
      cases steps
      rw [accepting] at registered
      refine ⟨add_one_le below, ?_, fun phase => ?_⟩
      · rw [accepting]
        exact registered
      · rw [accepting] at phase
        cases phase
  | leave =>
      simp only [EpollServer.stepThread, Option.ite_none_right_eq_some] at steps
      obtain ⟨⟨accepting, -⟩, steps⟩ := steps
      cases steps
      rw [accepting] at registered
      exact ⟨bounded, registered, fun phase => by cases phase⟩
  | full =>
      simp only [EpollServer.stepThread, Option.ite_none_right_eq_some] at steps
      obtain ⟨⟨accepting, -⟩, steps⟩ := steps
      cases steps
      rw [accepting] at registered
      exact ⟨bounded, registered, fun phase => by cases phase⟩
  | rearm succeeds =>
      cases undisturbed
      simp only [EpollServer.stepThread, Option.ite_none_right_eq_some] at steps
      obtain ⟨accepted, steps⟩ := steps
      cases steps
      rw [accepted] at registered
      refine ⟨bounded, ?_, fun phase => by cases phase⟩
      simp only [if_true, rearmServer, registered]
      rfl
  | unlock =>
      simp only [EpollServer.stepThread, Option.ite_none_right_eq_some] at steps
      obtain ⟨rearmed, steps⟩ := steps
      cases steps
      rw [rearmed] at registered
      exact ⟨bounded, registered, fun phase => by cases phase⟩
  | close succeeds =>
      obtain ⟨positive, added⟩ := undisturbed
      simp only [EpollServer.stepThread, Option.ite_none_right_eq_some] at steps
      obtain ⟨phases, steps⟩ := steps
      cases steps
      exact attentive.close positive added phases

theorem attentive_step {maxConnections : UInt64} {first next : ListeningState}
    {action : Nat × ListeningStep}
    (attentive : ∀ thread ∈ first.threads, Attentive maxConnections thread)
    (undisturbed : Undisturbed maxConnections first action)
    (steps : stepListening maxConnections first action = some next) :
    ∀ thread ∈ next.threads, Attentive maxConnections thread := by
  obtain ⟨thread, found, later⟩ := Option.bind_eq_some_iff.mp steps
  obtain ⟨⟨after, moved⟩, stepped, rfl⟩ := Option.map_eq_some_iff.mp later
  intro other member
  rcases List.mem_or_eq_of_mem_set member with kept | rfl
  · exact attentive other kept
  · have present : thread ∈ first.threads := List.mem_of_getElem? found
    exact (attentive thread present).stepThread (undisturbed thread found) stepped

theorem attentive_of_undisturbed {maxConnections : UInt64} (positive : 0 < maxConnections)
    {numThreads : Nat} {actions : List (Nat × ListeningStep)} {state : ListeningState}
    (run : Transitions.Run (stepListening maxConnections) (Undisturbed maxConnections)
      (startListening numThreads) actions state) :
    ∀ thread ∈ state.threads, Attentive maxConnections thread := by
  apply run.invariant (fun _ _ _ => attentive_step)
  intro thread initial
  rw [List.eq_of_mem_replicate initial]
  exact ⟨UInt64.le_of_lt positive, by simp [positive], fun phase => by cases phase⟩

/-- No thread goes deaf in a run that is not disturbed. -/
theorem hears_of_undisturbed {maxConnections : UInt64} (positive : 0 < maxConnections)
    (numThreads : Nat) {actions : List (Nat × ListeningStep)} {state : ListeningState}
    (run : Transitions.Run (stepListening maxConnections) (Undisturbed maxConnections)
      (startListening numThreads) actions state) :
    ∀ thread ∈ state.threads, Hears maxConnections thread := by
  intro thread member
  have attentive := attentive_of_undisturbed positive run
  exact (attentive thread member).hears

/-- One thread accepts up to the limit and closes the connection again. -/
theorem hears_of_undisturbed_fullThread :
    ∃ state, Transitions.Run (stepListening 1) (Undisturbed 1) (startListening 2)
        [(0, .deliver), (0, .tryLock true), (0, .accept), (0, .full), (0, .rearm true),
          (0, .unlock), (0, .close true)] state ∧
      ∀ thread ∈ state.threads, Hears 1 thread := by
  have nonzero : (0 : UInt64) + 1 ≠ 0 := by decide
  obtain ⟨state, run⟩ : ∃ state, Transitions.Run (stepListening 1) (Undisturbed 1)
      (startListening 2) [(0, .deliver), (0, .tryLock true), (0, .accept), (0, .full),
        (0, .rearm true), (0, .unlock), (0, .close true)] state := by
    refine ⟨_, .cons ?_ rfl (.cons ?_ rfl (.cons ?_ rfl (.cons ?_ rfl (.cons ?_ rfl
      (.cons ?_ rfl (.cons ?_ rfl (.nil _)))))))⟩
    all_goals
      intro thread found
      cases found
    · trivial
    · rfl
    · trivial
    · trivial
    · rfl
    · trivial
    · exact ⟨nonzero, fun _ => rfl⟩
  exact ⟨state, run, hears_of_undisturbed (by decide) 2 run⟩

/-- Two threads hear of the same connection, and the second one does not get
the lock: its listening socket stays disarmed. -/
theorem exists_not_hears :
    ∃ state, Transitions.Run (stepListening 2) Transitions.anything (startListening 2)
        [(0, .deliver), (1, .deliver), (0, .tryLock true), (1, .tryLock false)] state ∧
      ∃ thread ∈ state.threads, ¬ Hears 2 thread := by
  refine ⟨_, .cons trivial rfl (.cons trivial rfl (.cons trivial rfl (.cons trivial rfl
    (.nil _)))), ⟨.waiting, 0, Interest.disarmed⟩, ?_, ?_⟩
  · exact List.mem_cons_of_mem _ List.mem_cons_self
  · intro hears
    have isArmed := (hears rfl).1 (by decide)
    cases isArmed

/-- Such a thread never hears of a connection again. -/
theorem deaf_step {maxConnections : UInt64} {acceptMutex after : Option Nat} {id : Nat}
    {thread next : ListeningThread} {step : ListeningStep}
    (waiting : thread.phase = .waiting) (deaf : thread.server = Interest.disarmed)
    (below : thread.numConnections < maxConnections)
    (counted : ∀ succeeds, step = .close succeeds → thread.numConnections ≠ 0)
    (steps : stepThread maxConnections acceptMutex id thread step = some (after, next)) :
    next.phase = .waiting ∧ next.server = Interest.disarmed ∧
      next.numConnections < maxConnections := by
  have roomLeft : ¬ maxConnections ≤ thread.numConnections := UInt64.not_le.mpr below
  cases step with
  | deliver => simp [stepThread, deaf, Interest.armed, Interest.disarmed] at steps
  | tryLock locked => cases locked <;> simp [stepThread, waiting] at steps
  | accept => simp [stepThread, waiting] at steps
  | leave => simp [stepThread, waiting] at steps
  | full => simp [stepThread, waiting] at steps
  | rearm succeeds => simp [stepThread, waiting] at steps
  | unlock => simp [stepThread, waiting] at steps
  | close succeeds =>
      simp only [stepThread, waiting, true_or, if_true, Option.some.injEq] at steps
      cases steps
      refine ⟨rfl, ?_, ?_⟩
      · simp [readdServer, roomLeft, deaf]
      · exact sub_one_lt (counted succeeds rfl) (UInt64.le_of_lt below)

end EpollServer

end Libjaypea
