import Libjaypea.PollAccounts

/-!
# What the poll server echoes

As long as `write` takes all that it is given, a client that is in the table has
been sent exactly what was read from it, whatever became of the slot and of the
descriptor before.
-/

namespace Libjaypea

namespace PollServer

open State (findSlot)
open Transitions

/-- The clients in the table have got back what they sent. -/
def Echoed (state : State) : Prop :=
  ∀ (slot : Nat) fd, state.clients[slot]? = some fd → fd ≠ -1 → state.sent fd = state.received fd

/-- `write` takes all the data. -/
def Transfer.Complete (transfer : Transfer) : Prop :=
  transfer.data.length ≤ transfer.written

/-- No `write` that succeeds is short. -/
def Complete (_ : State) : Action → Prop
  | .serve transfers _ => ∀ transfer ∈ transfers, transfer.Complete
  | _ => True

section Echo

variable {serverFd fd : Int} {state next : State} {slot : Nat}

theorem Echoed.accept (echoed : Echoed state) (fd : Int) : Echoed (state.accept fd) := by
  unfold State.accept
  dsimp only
  split
  · exact echoed
  · rename_i next found
    have within := (free_of_findSlot found).1.le_length
    intro slot other there real
    dsimp only at there ⊢
    by_cases same : other = fd
    · rw [same, Function.update_self, Function.update_self]
    · rw [Function.update_of_ne same, Function.update_of_ne same]
      rw [getElem?_put within] at there
      split at there
      · exact absurd (Option.some_inj.mp there).symm same
      · exact echoed slot other there real

theorem Echoed.acceptLoop {accepted : List Int} (echoed : Echoed state)
    (accepts : State.acceptLoop accepted state = some next) : Echoed next := by
  induction accepted generalizing state with
  | nil =>
      cases accepts
      exact echoed
  | cons fd rest ih =>
      rw [State.acceptLoop, Option.ite_none_right_eq_some] at accepts
      exact ih (echoed.accept fd) accepts.2

theorem Echoed.transfer (echoed : Echoed state) {transfer : Transfer}
    (complete : transfer.Complete) : Echoed (State.transfer fd state transfer) := by
  intro slot other there real
  have before := echoed slot other there real
  dsimp only [State.transfer]
  by_cases same : other = fd
  · subst same
    rw [Function.update_self, Function.update_self, before, List.take_of_length_le complete]
  · rw [Function.update_of_ne same, Function.update_of_ne same, before]

theorem Echoed.transfers {transfers : List Transfer} (echoed : Echoed state)
    (complete : ∀ transfer ∈ transfers, transfer.Complete) :
    Echoed (transfers.foldl (State.transfer fd) state) := by
  induction transfers generalizing state with
  | nil => exact echoed
  | cons transfer transfers ih =>
      obtain ⟨here, later⟩ := List.forall_mem_cons.mp complete
      exact ih (echoed.transfer here) later

/-- A client that has given up its slot is in no other one. -/
theorem Accounts.gone (accounts : Accounts serverFd state)
    (there : state.clients[slot]? = some fd) (real : fd ≠ -1) (other : Nat) :
    (state.clients.set slot (-1))[other]? ≠ some fd := by
  intro found
  obtain ⟨apart, found⟩ :=
    (getElem?_giveUp (List.getElem?_eq_some_iff.mp there).1 other real).mp found
  exact apart (accounts.distinct other slot fd found there real)

theorem Echoed.finishClient (echoed : Echoed state) (accounts : Accounts serverFd state)
    (there : state.clients[slot]? = some fd) (real : fd ≠ -1) (ending : Ending) :
    Echoed (state.finishClient slot fd ending) := by
  have given : ∀ received : Int → Bytes,
      (∀ other, other ≠ fd → received other = state.received other) →
      Echoed ({ state with received := received }.giveUp slot fd) := by
    intro received same another other found isReal
    have apart : other ≠ fd := by
      rintro rfl
      exact accounts.gone there real another found
    dsimp only [State.giveUp, State.close] at found ⊢
    rw [same other apart]
    have inside := (List.getElem?_eq_some_iff.mp there).1
    exact echoed another other ((getElem?_giveUp inside another isReal).mp found).2 isReal
  cases ending with
  | wouldBlock => exact echoed
  | readFailed => exact given state.received fun _ _ => rfl
  | endOfStream => exact given state.received fun _ _ => rfl
  | writeFailed data => exact given _ fun other apart => Function.update_of_ne apart ..

theorem Echoed.shutDown (echoed : Echoed state) : Echoed state.shutDown := by
  have closes : ∀ fds : List Int, ∀ state : State, Echoed state →
      Echoed (fds.foldl State.close state) := by
    intro fds
    induction fds with
    | nil => exact fun _ echoed => echoed
    | cons first fds ih => exact fun state echoed => ih (state.close first) echoed
  exact closes _ state echoed

theorem Echoed.step {action : Action} (echoed : Echoed state) (ledger : Ledger serverFd state)
    (complete : Complete state action) (steps : step serverFd state action = some next) :
    Echoed next := by
  cases stepped_of_step steps with
  | poll => exact echoed
  | pollFails => exact echoed.shutDown
  | finish => exact echoed.shutDown
  | @acceptAll accepted failed slot rest looped batch server accepts =>
      have popped : Echoed { state with pending := rest } := echoed
      have kept : Echoed looped := popped.acceptLoop accepts
      exact kept
  | @serve transfers ending slot rest fd batch there client =>
      cases ledger with
      | ended _ settled =>
          rw [settled.idle] at batch
          cases batch
      | looping _ accounts scanning =>
          have natural := scanning.natural batch there
          have popped : Echoed { state with pending := rest } := echoed
          have transferred := @Echoed.transfers fd _ transfers popped complete
          obtain ⟨received, sent, equal⟩ :=
            exists_transfers transfers fd { state with pending := rest }
          rw [equal] at transferred ⊢
          have books : Accounts serverFd { state with
              pending := rest
              received := received
              sent := sent } := accounts.of_same rfl rfl rfl rfl rfl
          exact transferred.finishClient books there (by omega) ending

/-- In a run in which no write is short, a client in the table has been sent what
was read from it since it was accepted, and nothing else. -/
theorem echoed_of_run (listening : 0 ≤ serverFd) {actions : List Action} {last : State}
    (run : Run (PollServer.step serverFd) Complete (.start serverFd) actions last) :
    Echoed last := by
  have both : Ledger serverFd last ∧ Echoed last := by
    apply run.invariant
    · rintro first action next ⟨ledger, echoed⟩ complete steps
      exact ⟨ledger.step steps, echoed.step ledger complete steps⟩
    · exact ⟨ledger_start listening, fun _ _ _ _ => rfl⟩
  exact both.2

instance (state : State) (action : Action) : Decidable (Complete state action) :=
  match action with
  | .serve transfers _ =>
      inferInstanceAs (Decidable (∀ transfer ∈ transfers, transfer.data.length ≤ transfer.written))
  | .poll _ => isTrue trivial
  | .pollFails => isTrue trivial
  | .acceptAll _ _ => isTrue trivial
  | .finish => isTrue trivial

/-- A client takes over the descriptor of one that has left. -/
theorem echoed_of_run_reused : ∃ last,
    Run (PollServer.step 3) Complete (.start 3)
      [.poll [0], .acceptAll [4] false, .poll [1], .serve [⟨bytes "ab", 2⟩] .endOfStream,
        .poll [0], .acceptAll [4] false, .poll [1], .serve [⟨bytes "c", 1⟩] .wouldBlock] last ∧
    last.sent 4 = bytes "c" ∧ Echoed last := by
  have executes : (exec (guarded (PollServer.step 3) Complete) (.start 3)
      [.poll [0], .acceptAll [4] false, .poll [1], .serve [⟨bytes "ab", 2⟩] .endOfStream,
        .poll [0], .acceptAll [4] false, .poll [1], .serve [⟨bytes "c", 1⟩] .wouldBlock]).map
      (fun state => state.sent 4) = some (bytes "c") := by
    decide +kernel
  obtain ⟨last, run, sent⟩ := exists_run_of_exec_guarded executes
  exact ⟨last, run, sent, echoed_of_run (by decide) run⟩

end Echo

end PollServer

end Libjaypea
