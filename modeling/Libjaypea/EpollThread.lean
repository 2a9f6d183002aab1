import Libjaypea.KeyedList
import Libjaypea.Listening
import Libjaypea.Util
import Mathlib.Logic.Function.Basic

/-!
# One thread of the server

`EpollServer::run_thread`: a batch of events is taken from the epoll, and its
events are handled one after the other.  The maps between clients and timers
and the counter are the thread's own; the entries of its two epolls and the
open descriptors are kept by the kernel, which also decides the results of the
system calls.
-/

namespace Libjaypea

namespace EpollServer

/-- What is fixed when the thread enters its loop. -/
structure Config where
  serverFd : Int
  timeoutEpollFd : Int
  broadcastFd : Int
  maxConnections : UInt64

/-- `error` is an event with `EPOLLERR` or `EPOLLHUP`, or without `EPOLLIN`. -/
inductive Signal
  | readable
  | error
  deriving DecidableEq, Repr

inductive ClientEvent
  | accepted (fd : Int)
  | closed (fd : Int)
  /-- `on_disconnect` is called. -/
  | disconnected (fd : Int)
  deriving DecidableEq, Repr

structure ThreadState where
  clientToTimer : List (Int × Int)
  timerToClient : List (Int × Int)
  numConnections : UInt64
  epoll : Int → Interest
  timeoutEpoll : Int → Interest
  /-- The descriptors that are open, among those the thread deals with. -/
  isOpen : Int → Bool
  /-- The events of the current batch that are not handled yet. -/
  pending : List (Int × Signal)
  /-- The newest event comes first. -/
  log : List ClientEvent

/-- A connection that `accept` returned, with the results of the calls that
are made for it. -/
structure Accepted where
  fd : Int
  /-- `accept_continuation` wants it closed. -/
  rejected : Bool
  /-- `epoll_ctl` adds it to the epoll. -/
  added : Bool
  /-- The descriptor of `timerfd_create`. -/
  timer : Option Int
  /-- `timerfd_settime` succeeds. -/
  settime : Bool
  /-- `epoll_ctl` adds the timer to the epoll of the timeouts. -/
  timerAdded : Bool

/-- The results of the system calls during the handling of one event. -/
structure Results where
  /-- `epoll_ctl` on a descriptor that is registered before the event. -/
  controls : Int → Bool
  /-- `close` of a timer reports success; the descriptor is gone in any case. -/
  closes : Int → Bool
  /-- `accept_mutex.try_lock`. -/
  locked : Bool
  /-- The connections that are there. -/
  accepted : List Accepted
  /-- The timers of `epoll_wait` on the timeouts, `none` when it fails. -/
  expired : Option (List Int)
  /-- `timerfd_settime` for the client's timer succeeds. -/
  settime : Bool
  recv : Int

namespace ThreadState

def start (config : Config) : ThreadState where
  clientToTimer := []
  timerToClient := []
  numConnections := 0
  epoll fd :=
    if fd = config.serverFd ∨ fd = config.timeoutEpollFd ∨ fd = config.broadcastFd then
      Interest.armed
    else none
  timeoutEpoll _ := none
  isOpen fd :=
    fd = config.serverFd ∨ fd = config.timeoutEpollFd ∨ fd = config.broadcastFd
  pending := []
  log := []

/-- A closed descriptor is no longer in any epoll. -/
def closeFd (state : ThreadState) (fd : Int) : ThreadState :=
  { state with
    epoll := Function.update state.epoll fd none
    timeoutEpoll := Function.update state.timeoutEpoll fd none
    isOpen := Function.update state.isOpen fd false }

/-- `EPOLL_CTL_MOD` with `EVENTS`. -/
def rearm (results : Results) (state : ThreadState) (fd : Int) : ThreadState :=
  if results.controls fd then
    { state with epoll := Function.update state.epoll fd (state.epoll fd).mod }
  else state

/-- The two erasures and the close of the timer, on every way to close a client. -/
def dropTimer (state : ThreadState) (client timer : Int) : ThreadState :=
  { state with
    clientToTimer := KeyedList.erase state.clientToTimer client
    timerToClient := KeyedList.erase state.timerToClient timer }.closeFd timer

def closeClientCallback (config : Config) (results : Results) (state : ThreadState) (fd : Int) :
    ThreadState :=
  let closed := state.closeFd fd
  { closed with
    epoll := Function.update closed.epoll config.serverFd
      (if results.controls config.serverFd then
        readdServer config.maxConnections state.numConnections (closed.epoll config.serverFd)
      else closed.epoll config.serverFd)
    numConnections := state.numConnections - 1
    log := .disconnected fd :: .closed fd :: state.log }

/-- `operator[]` makes a timer 0 for an unknown client, which the erasure takes back. -/
def closeOnError (config : Config) (results : Results) (state : ThreadState) (fd : Int) :
    ThreadState :=
  let timer := (KeyedList.get? state.clientToTimer fd).getD 0
  closeClientCallback config results (state.dropTimer fd timer) fd

/-- One pass through the loop over the expired timers. -/
def expire (config : Config) (results : Results) (state : ThreadState) (timer : Int) :
    ThreadState :=
  let client := (KeyedList.get? state.timerToClient timer).getD 0
  let dropped := state.dropTimer client timer
  if results.closes timer then
    closeClientCallback config results
      { dropped with
        epoll :=
          if results.controls client then Function.update dropped.epoll client none
          else dropped.epoll } client
  else dropped

/-- The epoll of the timeouts hands out armed timers, and disarms them. -/
def takeExpired (state : ThreadState) (timers : List Int) : Option ThreadState :=
  if timers.Nodup ∧ ∀ timer ∈ timers, state.timeoutEpoll timer = Interest.armed then
    some { state with
      timeoutEpoll := fun fd => if fd ∈ timers then Interest.disarmed else state.timeoutEpoll fd }
  else none

def handleTimeouts (config : Config) (results : Results) (state : ThreadState) :
    Option ThreadState :=
  match results.expired with
  | none => some state
  | some timers =>
      (state.takeExpired timers).map fun state =>
        (timers.foldl (expire config results) state).rearm results config.timeoutEpollFd

/-- The timer of a new client; a new descriptor is one that is not open. -/
def startTimer (state : ThreadState) (accepted : Accepted) : Option ThreadState :=
  match accepted.timer with
  | none => some state
  | some timer =>
      if state.isOpen timer then none
      else
        let created := { state with isOpen := Function.update state.isOpen timer true }
        if accepted.settime then
          some { created with
            timerToClient := KeyedList.set state.timerToClient timer accepted.fd
            clientToTimer := KeyedList.set state.clientToTimer accepted.fd timer
            timeoutEpoll :=
              if accepted.timerAdded then
                Function.update state.timeoutEpoll timer (state.timeoutEpoll timer).add
              else state.timeoutEpoll }
        else some created

/-- A new connection; the boolean tells whether the accept loop goes on. -/
def accept (state : ThreadState) (accepted : Accepted) : Option (Bool × ThreadState) :=
  if state.isOpen accepted.fd then none
  else
    let opened := { state with
      isOpen := Function.update state.isOpen accepted.fd true
      log := .accepted accepted.fd :: state.log }
    if accepted.rejected ∨ !accepted.added then
      some (false,
        { opened.closeFd accepted.fd with log := .closed accepted.fd :: opened.log })
    else
      (startTimer { opened with
        epoll := Function.update state.epoll accepted.fd (state.epoll accepted.fd).add }
          accepted).map fun timed =>
        (true, { timed with numConnections := timed.numConnections + 1 })

def acceptLoop (config : Config) : List Accepted → ThreadState → Option ThreadState
  | [], state => some state
  | accepted :: rest, state =>
      if state.numConnections < config.maxConnections then
        (state.accept accepted).bind fun (goesOn, state) =>
          if goesOn then acceptLoop config rest state else some state
      else some state

/-- Without the lock, nothing is done. -/
def handleServer (config : Config) (results : Results) (state : ThreadState) :
    Option ThreadState :=
  if results.locked then
    (acceptLoop config results.accepted state).map fun state =>
      if results.controls config.serverFd then
        { state with
          epoll := Function.update state.epoll config.serverFd
            (rearmServer config.maxConnections state.numConnections
              (state.epoll config.serverFd)) }
      else state
  else some state

/-- `operator[]` makes a timer 0 for an unknown client, and the entry stays. -/
def handleClient (config : Config) (results : Results) (state : ThreadState) (fd : Int) :
    ThreadState :=
  let timer := (KeyedList.get? state.clientToTimer fd).getD 0
  let looked :=
    if KeyedList.contains state.clientToTimer fd then state
    else { state with clientToTimer := KeyedList.set state.clientToTimer fd 0 }
  if !(results.settime && state.isOpen timer) then looked
  else if results.recv < 0 then
    closeClientCallback config results (looked.dropTimer fd timer) fd
  else if (packetLimit : Int) ≤ results.recv ∨ results.recv = 0 then looked
  else looked.rearm results fd

def handleEvent (config : Config) (results : Results) (state : ThreadState) (fd : Int)
    (signal : Signal) : Option ThreadState :=
  if signal = .error then some (state.closeOnError config results fd)
  else if fd = config.timeoutEpollFd then state.handleTimeouts config results
  else if fd = config.broadcastFd then some (state.rearm results fd)
  else if fd = config.serverFd then state.handleServer config results
  else some (state.handleClient config results fd)

end ThreadState

inductive ThreadAction
  /-- `epoll_wait` returns these events. -/
  | wait (batch : List (Int × Signal))
  /-- The next event of the batch is handled. -/
  | handle (results : Results)

/-- A batch holds armed descriptors, once each, and disarms them. -/
def stepEvents (config : Config) (state : ThreadState) : ThreadAction → Option ThreadState
  | .wait batch =>
      if state.pending = [] ∧ (batch.map Prod.fst).Nodup ∧
          ∀ event ∈ batch, state.epoll event.1 = Interest.armed then
        some { state with
          pending := batch
          epoll := fun fd =>
            if fd ∈ batch.map Prod.fst then Interest.disarmed else state.epoll fd }
      else none
  | .handle results =>
      match state.pending with
      | [] => none
      | (fd, signal) :: rest =>
          ThreadState.handleEvent config results { state with pending := rest } fd signal

section Steps

variable {config : Config} {state next : ThreadState} {action : ThreadAction}

/-- What a step starts from, and what it does. -/
inductive EventStep (config : Config) (state : ThreadState) : ThreadAction → ThreadState → Prop
  | wait {batch : List (Int × Signal)} (idle : state.pending = [])
      (distinct : (batch.map Prod.fst).Nodup)
      (isArmed : ∀ event ∈ batch, state.epoll event.1 = Interest.armed) :
      EventStep config state (.wait batch) { state with
        pending := batch
        epoll := fun fd => if fd ∈ batch.map Prod.fst then Interest.disarmed else state.epoll fd }
  | handle {results : Results} {fd : Int} {signal : Signal} {rest : List (Int × Signal)}
      {next : ThreadState} (batch : state.pending = (fd, signal) :: rest)
      (handles : ThreadState.handleEvent config results { state with pending := rest } fd signal =
        some next) :
      EventStep config state (.handle results) next

theorem eventStep_of_stepEvents (steps : stepEvents config state action = some next) :
    EventStep config state action next := by
  cases action with
  | wait batch =>
      simp only [stepEvents, Option.ite_none_right_eq_some] at steps
      obtain ⟨⟨idle, distinct, isArmed⟩, steps⟩ := steps
      cases steps
      exact .wait idle distinct isArmed
  | handle results =>
      cases batch : state.pending with
      | nil => simp [stepEvents, batch] at steps
      | cons event rest =>
          obtain ⟨fd, signal⟩ := event
          simp only [stepEvents, batch] at steps
          exact .handle batch steps

end Steps

end EpollServer

end Libjaypea
