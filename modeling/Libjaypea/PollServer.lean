import Libjaypea.CString
import Libjaypea.Transitions
import Mathlib.Logic.Function.Basic
import Mathlib.Data.List.Nodup

/-!
# The echo server with poll

The `main` of `tcp-poll-server.cpp`: a table of descriptors that starts with the
listening one.  A new client gets the first slot that was given up, or the next
one; a client's bytes are written back to it, and its slot is given up when its
connection ends.
-/

namespace Libjaypea

namespace PollServer

open Transitions

def connectionsLimit : Nat := 2048

inductive Phase
  | looping
  | ended
  deriving DecidableEq

structure State where
  /-- The descriptors of the first `num_clients` slots; a slot that was given up
  holds -1.  The slots behind hold 0. -/
  clients : List Int
  /-- What the kernel has open. -/
  isOpen : Int → Bool
  /-- The slots with events that the loop has not come to yet. -/
  pending : List Nat
  exit : Bool
  phase : Phase
  /-- The clients for which there was no slot. -/
  turnedAway : List Int
  /-- The calls of `close`: the descriptor, and whether it was open. -/
  closed : List (Int × Bool)
  /-- The most slots that have been in use together. -/
  peak : Nat
  /-- What was read from a client and written to it since it was accepted. -/
  received : Int → Bytes
  sent : Int → Bytes

/-- Data that `read` returns, and how much of it `write` takes. -/
structure Transfer where
  data : Bytes
  written : Nat

/-- How the loop over a client's data ends. -/
inductive Ending
  | wouldBlock
  | readFailed
  | endOfStream
  /-- `write` fails for data that was read. -/
  | writeFailed (data : Bytes)

inductive Action
  /-- `poll` returns these slots. -/
  | poll (ready : List Nat)
  | pollFails
  /-- `accept` returns these descriptors, and then fails or would block. -/
  | acceptAll (accepted : List Int) (failed : Bool)
  | serve (transfers : List Transfer) (ending : Ending)
  /-- The round is over, and `exit` is set. -/
  | finish

namespace State

def start (serverFd : Int) : State where
  clients := [serverFd]
  isOpen fd := fd = serverFd
  pending := []
  exit := false
  phase := .looping
  turnedAway := []
  closed := []
  peak := 1
  received _ := []
  sent _ := []

/-- The loop for a slot, with the number of slots from `next` on. -/
def findSlot (clients : List Int) : Nat → Nat → Option Nat
  | 0, _ => none
  | slots + 1, next =>
      if clients[next]? = some (-1) then some next
      else if next = clients.length then some next
      else findSlot clients slots (next + 1)

def held (clients : List Int) : Nat :=
  clients.countP (· ≠ -1)

/-- The slots after a client was put into one of them. -/
def put (clients : List Int) (next : Nat) (fd : Int) : List Int :=
  if next = clients.length then clients ++ [fd] else clients.set next fd

/-- A descriptor that `accept` returned. -/
def accept (state : State) (fd : Int) : State :=
  let opened := { state with isOpen := Function.update state.isOpen fd true }
  match findSlot state.clients connectionsLimit 0 with
  | none => { opened with turnedAway := fd :: state.turnedAway }
  | some next =>
      { opened with
        clients := put state.clients next fd
        peak := max state.peak (held (put state.clients next fd))
        received := Function.update state.received fd []
        sent := Function.update state.sent fd [] }

/-- A new descriptor is one that is not open. -/
def acceptLoop : List Int → State → Option State
  | [], state => some state
  | fd :: rest, state =>
      if 0 ≤ fd ∧ state.isOpen fd = false then acceptLoop rest (state.accept fd) else none

def transfer (fd : Int) (state : State) (transfer : Transfer) : State :=
  { state with
    received := Function.update state.received fd (state.received fd ++ transfer.data)
    sent := Function.update state.sent fd
      (state.sent fd ++ transfer.data.take transfer.written) }

def close (state : State) (fd : Int) : State :=
  { state with
    isOpen := Function.update state.isOpen fd false
    closed := (fd, state.isOpen fd) :: state.closed }

def giveUp (state : State) (slot : Nat) (fd : Int) : State :=
  { state.close fd with clients := state.clients.set slot (-1) }

def finishClient (state : State) (slot : Nat) (fd : Int) : Ending → State
  | .wouldBlock => state
  | .readFailed => state.giveUp slot fd
  | .endOfStream => state.giveUp slot fd
  | .writeFailed data =>
      { state with
        received := Function.update state.received fd (state.received fd ++ data) }.giveUp slot fd

/-- The loop in front of the return. -/
def shutDown (state : State) : State :=
  { (state.clients.filter (0 ≤ ·)).foldl close state with phase := .ended }

end State

def step (serverFd : Int) (state : State) : Action → Option State
  | .poll ready =>
      if state.phase = .looping ∧ state.pending = [] ∧ state.exit = false ∧ ready.Nodup ∧
          ∀ slot ∈ ready, ∃ fd ∈ state.clients[slot]?, 0 ≤ fd then
        some { state with pending := ready }
      else none
  | .pollFails =>
      if state.phase = .looping ∧ state.pending = [] ∧ state.exit = false then some state.shutDown
      else none
  | .acceptAll accepted failed =>
      match state.pending with
      | [] => none
      | slot :: rest =>
          if state.clients[slot]? = some serverFd then
            (State.acceptLoop accepted { state with pending := rest }).map fun state =>
              { state with exit := state.exit || failed }
          else none
  | .serve transfers ending =>
      match state.pending with
      | [] => none
      | slot :: rest =>
          match state.clients[slot]? with
          | none => none
          | some fd =>
              if fd = serverFd then none
              else
                some ((transfers.foldl (State.transfer fd)
                  { state with pending := rest }).finishClient slot fd ending)
  | .finish =>
      if state.phase = .looping ∧ state.pending = [] ∧ state.exit = true then some state.shutDown
      else none

/-- What a step can do, and when. -/
inductive Stepped (serverFd : Int) (state : State) : Action → State → Prop
  | poll {ready : List Nat} (phase : state.phase = .looping) (idle : state.pending = [])
      (goesOn : state.exit = false) (nodup : ready.Nodup)
      (used : ∀ slot ∈ ready, ∃ fd, state.clients[slot]? = some fd ∧ 0 ≤ fd) :
      Stepped serverFd state (.poll ready) { state with pending := ready }
  | pollFails (phase : state.phase = .looping) (idle : state.pending = [])
      (goesOn : state.exit = false) : Stepped serverFd state .pollFails state.shutDown
  | acceptAll {accepted : List Int} {failed : Bool} {slot : Nat} {rest : List Nat} {looped : State}
      (batch : state.pending = slot :: rest) (server : state.clients[slot]? = some serverFd)
      (accepts : State.acceptLoop accepted { state with pending := rest } = some looped) :
      Stepped serverFd state (.acceptAll accepted failed)
        { looped with exit := looped.exit || failed }
  | serve {transfers : List Transfer} {ending : Ending} {slot : Nat} {rest : List Nat} {fd : Int}
      (batch : state.pending = slot :: rest) (there : state.clients[slot]? = some fd)
      (client : fd ≠ serverFd) :
      Stepped serverFd state (.serve transfers ending)
        ((transfers.foldl (State.transfer fd) { state with pending := rest }).finishClient slot fd
          ending)
  | finish (phase : state.phase = .looping) (idle : state.pending = [])
      (exits : state.exit = true) : Stepped serverFd state .finish state.shutDown

section Steps

variable {serverFd : Int} {state next : State} {action : Action}

theorem stepped_of_step (steps : step serverFd state action = some next) :
    Stepped serverFd state action next := by
  cases action with
  | poll ready =>
      rw [step, Option.ite_none_right_eq_some] at steps
      obtain ⟨⟨phase, idle, goesOn, nodup, used⟩, steps⟩ := steps
      cases steps
      exact .poll phase idle goesOn nodup used
  | pollFails =>
      rw [step, Option.ite_none_right_eq_some] at steps
      obtain ⟨⟨phase, idle, goesOn⟩, steps⟩ := steps
      cases steps
      exact .pollFails phase idle goesOn
  | acceptAll accepted failed =>
      simp only [step] at steps
      split at steps
      · cases steps
      · rename_i slot rest batch
        rw [Option.ite_none_right_eq_some] at steps
        obtain ⟨server, steps⟩ := steps
        obtain ⟨looped, accepts, rfl⟩ := Option.map_eq_some_iff.mp steps
        exact .acceptAll batch server accepts
  | serve transfers ending =>
      simp only [step] at steps
      split at steps
      · cases steps
      · rename_i slot rest batch
        split at steps
        · cases steps
        · rename_i fd there
          rw [Option.ite_none_left_eq_some] at steps
          obtain ⟨client, steps⟩ := steps
          cases steps
          exact .serve batch there client
  | finish =>
      rw [step, Option.ite_none_right_eq_some] at steps
      obtain ⟨⟨phase, idle, exits⟩, steps⟩ := steps
      cases steps
      exact .finish phase idle exits

/-- Nothing is done after the end. -/
theorem Stepped.running (stepped : Stepped serverFd state action next) :
    state.phase = .looping ∨ state.pending ≠ [] := by
  cases stepped with
  | poll phase => exact .inl phase
  | pollFails phase => exact .inl phase
  | acceptAll batch => exact .inr (by simp [batch])
  | serve batch => exact .inr (by simp [batch])
  | finish phase => exact .inl phase

end Steps

end PollServer

end Libjaypea
