import Libjaypea.ClientArming
import Libjaypea.PonalServer
import Mathlib.Data.List.Count

/-!
# The connections of the key-value server

`on_read` returns zero after a response, and the thread takes that for nothing
read: it does not arm the client again.  So a connection gets one response, and
what it sends afterwards is not read.  Only a descriptor that is accepted anew
while an event of its last connection waits in the batch is read twice.
-/

namespace Libjaypea

namespace Ponal

open EpollServer (ClientEvent Config Results Signal ThreadAction ThreadState stepEvents
  quiet_or_rearmed EventStep eventStep_of_stepEvents)
open Transitions

/-- One thread of the server, and the table that all threads share. -/
structure Served where
  thread : ThreadState
  values : Values
  /-- The responses written since the descriptor was last accepted. -/
  answers : Int → Nat

def Served.start (config : Config) : Served :=
  ⟨.start config, [], fun _ => 0⟩

/-- What is there to be read, and whether the response can be written. -/
structure Arrival where
  incoming : EpollServer.ReadResult
  stale : Memory
  written : Bool

inductive Action
  | wait (batch : List (Int × Signal))
  | handle (results : Results) (arrival : Arrival)
  /-- Another thread serves a packet. -/
  | elsewhere (request : Request)

/-- The client from which `recv` reads while the next event is handled. -/
def reader (config : Config) (state : ThreadState) (results : Results) : Option Int :=
  match state.pending with
  | (fd, .readable) :: _ =>
      if fd = config.timeoutEpollFd ∨ fd = config.broadcastFd ∨ fd = config.serverFd then none
      else if results.settime &&
          state.isOpen ((KeyedList.get? state.clientToTimer fd).getD 0) then some fd
      else none
  | _ => none

/-- The values and the response after the call of `on_read`, if it is called. -/
def Arrival.reply (arrival : Arrival) (values : Values) : Values × Option Bytes :=
  match arrival.incoming with
  | .bytes (byte :: rest) => respond values arrival.stale (byte :: rest)
  | _ => (values, none)

/-- The results of the system calls, with what `recv` makes of `on_read`. -/
def Arrival.results (arrival : Arrival) (values : Values) (results : Results) : Results :=
  let onRead := fun packet => returned (respond values arrival.stale packet).2 arrival.written
  { results with recv := EpollServer.recv onRead arrival.incoming }

def newEvents (state next : ThreadState) : List ClientEvent :=
  next.log.take (next.log.length - state.log.length)

/-- The descriptor on which a response is written. -/
def answered (config : Config) (served : Served) (results : Results) (arrival : Arrival) :
    Option Int :=
  if (arrival.reply served.values).2.isSome ∧ arrival.written then
    reader config served.thread results
  else none

def handled (config : Config) (served : Served) (results : Results) (arrival : Arrival)
    (thread : ThreadState) : Served where
  thread := thread
  values :=
    if (reader config served.thread results).isSome then (arrival.reply served.values).1
    else served.values
  answers fd :=
    if .accepted fd ∈ newEvents served.thread thread then 0
    else if answered config served results arrival = some fd then served.answers fd + 1
    else served.answers fd

def serve (config : Config) (served : Served) : Action → Option Served
  | .wait batch =>
      (stepEvents config served.thread (.wait batch)).map fun thread =>
        { served with thread := thread }
  | .handle results arrival =>
      (stepEvents config served.thread (.handle (arrival.results served.values results))).map
        (handled config served results arrival)
  | .elsewhere request =>
      some { served with values := (respond served.values request.stale request.packet).1 }

/-- No client is accepted under a descriptor whose event is still to be handled. -/
def Apart (served : Served) : Action → Prop
  | .handle results _ =>
      ∀ accepted ∈ results.accepted, accepted.fd ∉ served.thread.pending.tail.map Prod.fst
  | _ => True

/-- An armed entry gives one event. -/
def eventsOf : Interest → Nat
  | some true => 1
  | some false => 0
  | none => 0

/-- How often a descriptor may still be read before it is armed again: once when
it is armed, and for each of its events in the batch. -/
def readsLeft (state : ThreadState) (fd : Int) : Nat :=
  eventsOf (state.epoll fd) + (state.pending.map Prod.fst).count fd

/-- The responses of a connection and the reads that are left are few. -/
structure Limited (config : Config) (limit : Nat) (served : Served) : Prop where
  distinct : (served.thread.pending.map Prod.fst).Nodup
  few : ∀ fd, ¬ config.isSpecial fd →
    served.answers fd + readsLeft served.thread fd ≤ limit
  silent : ∀ fd, config.isSpecial fd → served.answers fd = 0

section Reading

variable {config : Config} {served : Served} {results : Results} {arrival : Arrival} {fd : Int}

theorem ordinary_of_reader (reads : reader config served.thread results = some fd) :
    ¬ config.isSpecial fd ∧ ∃ rest, served.thread.pending = (fd, .readable) :: rest := by
  unfold reader at reads
  split at reads
  · rename_i client rest batch
    split_ifs at reads with special set
    cases reads
    refine ⟨?_, rest, batch⟩
    rintro (server | timeout | broadcast)
    · exact special (.inr (.inr server))
    · exact special (.inl timeout)
    · exact special (.inr (.inl broadcast))
  · cases reads

/-- Only a client in hand gets a response, and `recv` gives zero then. -/
theorem answered_eq_some (answers : answered config served results arrival = some fd) :
    reader config served.thread results = some fd ∧
      (arrival.results served.values results).recv = 0 := by
  unfold answered at answers
  split at answers
  · rename_i replies
    refine ⟨answers, ?_⟩
    unfold Arrival.reply at replies
    split at replies
    · rename_i byte rest incoming
      rw [Arrival.results, incoming]
      exact if_pos replies
    · exact absurd replies.1 (by simp)
  · cases answers

end Reading

section Limits

variable {config : Config} {limit : Nat} {state after : ThreadState} {served next : Served}

theorem eventsOf_le_one (interest : Interest) : eventsOf interest ≤ 1 := by
  rcases interest with _ | isArmed
  · decide
  · cases isArmed
    · decide
    · decide

theorem eventsOf_of_ne_armed {interest : Interest} (unarmed : interest ≠ Interest.armed) :
    eventsOf interest = 0 := by
  rcases interest with _ | isArmed
  · rfl
  · cases isArmed
    · rfl
    · exact absurd rfl unarmed

theorem limited_start (config : Config) (limit : Nat) :
    Limited config limit (Served.start config) where
  distinct := List.nodup_nil
  few fd ordinary := by
    have unarmed : (ThreadState.start config).epoll fd = none := if_neg ordinary
    have none : readsLeft (ThreadState.start config) fd = 0 := by
      rw [readsLeft, unarmed]
      rfl
    dsimp only [Served.start]
    omega
  silent _ _ := rfl

theorem readsLeft_le (state : ThreadState) (fd : Int) :
    readsLeft state fd ≤ 1 + (state.pending.map Prod.fst).count fd :=
  Nat.add_le_add_right (eventsOf_le_one _) _

theorem readsLeft_mono {fd : Int} (pending : after.pending = state.pending)
    (arms : after.epoll fd = Interest.armed → state.epoll fd = Interest.armed) :
    readsLeft after fd ≤ readsLeft state fd := by
  rw [readsLeft, readsLeft, pending]
  apply Nat.add_le_add_right
  by_cases isArmed : after.epoll fd = Interest.armed
  · exact Nat.le_of_eq (by rw [isArmed, arms isArmed])
  · rw [eventsOf_of_ne_armed isArmed]
    exact Nat.zero_le _

/-- The event in hand is one read less for its descriptor. -/
theorem readsLeft_pop {first : Int} {signal : Signal} {rest : List (Int × Signal)}
    (batch : state.pending = (first, signal) :: rest) (fd : Int) :
    readsLeft state fd =
      readsLeft { state with pending := rest } fd + if first = fd then 1 else 0 := by
  unfold readsLeft
  rw [batch, List.map_cons, List.count_cons, Nat.add_assoc]
  simp

/-- The batch takes one read from every armed descriptor in it. -/
theorem readsLeft_wait {batch : List (Int × Signal)} (distinct : (batch.map Prod.fst).Nodup)
    (isArmed : ∀ event ∈ batch, state.epoll event.1 = Interest.armed) (fd : Int) :
    readsLeft { state with
      pending := batch
      epoll := fun other =>
        if other ∈ batch.map Prod.fst then Interest.disarmed else state.epoll other } fd ≤
      readsLeft state fd := by
  unfold readsLeft
  dsimp only
  by_cases reported : fd ∈ batch.map Prod.fst
  · obtain ⟨event, member, rfl⟩ := List.mem_map.mp reported
    rw [if_pos reported, isArmed event member, List.count_eq_one_of_mem distinct reported]
    exact Nat.le_add_right 1 _
  · rw [if_neg reported, List.count_eq_zero_of_not_mem reported]
    exact Nat.le_add_right _ _

theorem newEvents_of_append {added : List ClientEvent} (log : after.log = added ++ state.log) :
    newEvents state after = added := by
  rw [newEvents, log, List.length_append, Nat.add_sub_cancel, List.take_left]

theorem Limited.wait {batch : List (Int × Signal)} {thread : ThreadState}
    (limited : Limited config limit served)
    (steps : stepEvents config served.thread (.wait batch) = some thread) :
    Limited config limit { served with thread := thread } := by
  cases eventStep_of_stepEvents steps with
  | wait idle distinct isArmed =>
      refine ⟨distinct, fun fd ordinary => ?_, limited.silent⟩
      have before := limited.few fd ordinary
      have fewer := readsLeft_wait distinct isArmed fd
      dsimp only at fewer ⊢
      omega

variable {results : Results} {arrival : Arrival} {thread : ThreadState}

/-- A response is counted for the client whose event is in hand. -/
theorem answers_handled_le {first : Int} {signal : Signal} {rest : List (Int × Signal)}
    (batch : served.thread.pending = (first, signal) :: rest) (fd : Int) :
    (handled config served results arrival thread).answers fd ≤
      served.answers fd + if first = fd then 1 else 0 := by
  dsimp only [handled]
  split
  · exact Nat.zero_le _
  · split
    · rename_i answers
      obtain ⟨_, _, here⟩ := ordinary_of_reader (answered_eq_some answers).1
      cases batch.symm.trans here
      exact Nat.le_of_eq (by rw [if_pos rfl])
    · exact Nat.le_add_right _ _

theorem answers_handled_of_ne {fd : Int}
    (unanswered : answered config served results arrival ≠ some fd) :
    (handled config served results arrival thread).answers fd ≤ served.answers fd := by
  dsimp only [handled]
  rw [if_neg unanswered]
  split
  · exact Nat.zero_le _
  · exact Nat.le_refl _

theorem answers_handled_of_accepted {fd : Int} {added : List ClientEvent}
    (log : thread.log = added ++ served.thread.log) (accepted : .accepted fd ∈ added) :
    (handled config served results arrival thread).answers fd = 0 := by
  rw [← newEvents_of_append log] at accepted
  exact if_pos accepted

section Handle

variable {first : Int} {signal : Signal} {rest : List (Int × Signal)}

/-- An event that arms nobody but the clients it accepts. -/
theorem Limited.few_of_quiet (limited : Limited config limit served)
    (batch : served.thread.pending = (first, signal) :: rest)
    (room : ∀ accepted ∈ results.accepted, 1 + (rest.map Prod.fst).count accepted.fd ≤ limit)
    (quiet : EpollServer.Quiet config (results.accepted.map EpollServer.Accepted.fd)
      { served.thread with pending := rest } thread) {fd : Int}
    (ordinary : ¬ config.isSpecial fd) :
    (handled config served results arrival thread).answers fd + readsLeft thread fd ≤ limit := by
  have before := limited.few fd ordinary
  have popped := readsLeft_pop batch fd
  obtain ⟨added, log, among, arms⟩ := quiet.grown
  by_cases accepted : .accepted fd ∈ added
  · obtain ⟨one, member, rfl⟩ := List.mem_map.mp (among fd accepted)
    have reads := readsLeft_le thread one.fd
    rw [quiet.pending] at reads
    rw [answers_handled_of_accepted log accepted, Nat.zero_add]
    exact Nat.le_trans reads (room one member)
  · have counted := @answers_handled_le config served results arrival thread _ _ _ batch fd
    have reads := readsLeft_mono quiet.pending fun isArmed =>
      (arms fd ordinary isArmed).resolve_right accepted
    dsimp only at reads
    omega

/-- A client that is armed again got no response. -/
theorem Limited.few_of_rearmed (limited : Limited config limit served)
    (batch : served.thread.pending = (first, signal) :: rest)
    (positive : 0 < (arrival.results served.values results).recv)
    (pending : thread.pending = rest)
    (others : ∀ other, other ≠ first → thread.epoll other = served.thread.epoll other) {fd : Int}
    (ordinary : ¬ config.isSpecial fd) :
    (handled config served results arrival thread).answers fd + readsLeft thread fd ≤ limit := by
  have before := limited.few fd ordinary
  have unanswered : answered config served results arrival ≠ some fd := by
    intro answers
    have zero := (answered_eq_some answers).2
    omega
  have counted := @answers_handled_of_ne config served results arrival thread fd unanswered
  by_cases here : first = fd
  · subst here
    have reads := readsLeft_le thread first
    have inHand : 1 + (rest.map Prod.fst).count first ≤ readsLeft served.thread first := by
      rw [readsLeft, batch, List.map_cons, List.count_cons_self]
      omega
    rw [pending] at reads
    omega
  · have same : readsLeft thread fd = readsLeft served.thread fd := by
      rw [readsLeft_pop batch fd, if_neg here, readsLeft, readsLeft, pending,
        others fd (Ne.symm here), Nat.add_zero]
    omega

theorem Limited.handle (limited : Limited config limit served)
    (room : ∀ accepted ∈ results.accepted,
      1 + (served.thread.pending.tail.map Prod.fst).count accepted.fd ≤ limit)
    (steps : stepEvents config served.thread (.handle (arrival.results served.values results)) =
      some thread) :
    Limited config limit (handled config served results arrival thread) := by
  cases eventStep_of_stepEvents steps with
  | @handle _ first signal rest _ batch handles =>
      have distinct := limited.distinct
      rw [batch, List.map_cons, List.nodup_cons] at distinct
      rw [batch, List.tail_cons] at room
      have areFresh : ∀ one ∈ (arrival.results served.values results).accepted,
          one.fd ∈ results.accepted.map EpollServer.Accepted.fd :=
        fun one member => List.mem_map_of_mem member
      have outcome := quiet_or_rearmed areFresh handles
      have pending : thread.pending = rest := by
        rcases outcome with quiet | ⟨_, _, _, _, pending, _⟩
        · exact quiet.pending
        · exact pending
      refine ⟨?_, fun fd ordinary => ?_, fun fd special => ?_⟩
      · rw [handled, pending]
        exact distinct.2
      · rcases outcome with quiet | ⟨_, _, positive, _, _, _, others⟩
        · exact limited.few_of_quiet batch room quiet ordinary
        · exact limited.few_of_rearmed batch positive pending others ordinary
      · apply Nat.eq_zero_of_le_zero
        rw [← limited.silent fd special]
        apply answers_handled_of_ne
        intro answers
        exact (ordinary_of_reader (answered_eq_some answers).1).1 special

end Handle

/-- Every step keeps the limit, if it leaves room for the accepted clients. -/
theorem Limited.serve {action : Action} (limited : Limited config limit served)
    (room : ∀ results arrival, action = .handle results arrival →
      ∀ accepted ∈ results.accepted,
        1 + (served.thread.pending.tail.map Prod.fst).count accepted.fd ≤ limit)
    (steps : serve config served action = some next) : Limited config limit next := by
  cases action with
  | wait batch =>
      obtain ⟨thread, waits, rfl⟩ := Option.map_eq_some_iff.mp steps
      exact limited.wait waits
  | handle results arrival =>
      obtain ⟨thread, handles, rfl⟩ := Option.map_eq_some_iff.mp steps
      exact limited.handle (room results arrival rfl) handles
  | elsewhere request =>
      cases steps
      exact ⟨limited.distinct, limited.few, limited.silent⟩

theorem Limited.answers_le (limited : Limited config limit served) (fd : Int) :
    served.answers fd ≤ limit := by
  by_cases special : config.isSpecial fd
  · rw [limited.silent fd special]
    exact Nat.zero_le _
  · exact Nat.le_trans (Nat.le_add_right _ _) (limited.few fd special)

theorem limited_two {actions : List Action}
    (run : Run (Ponal.serve config) anything (Served.start config) actions next) :
    Limited config 2 next := by
  apply run.invariant _ (limited_start config 2)
  intro first action last limited _ steps
  refine limited.serve (fun results arrival _ accepted _ => ?_) steps
  have once := List.nodup_iff_count_le_one.mp
    (limited.distinct.sublist ((List.tail_sublist _).map Prod.fst)) accepted.fd
  omega

theorem limited_one {actions : List Action}
    (run : Run (Ponal.serve config) Apart (Served.start config) actions next) :
    Limited config 1 next := by
  apply run.invariant _ (limited_start config 1)
  intro first action last limited apart steps
  refine limited.serve (fun results arrival same accepted member => ?_) steps
  subst same
  exact Nat.le_of_eq (by rw [List.count_eq_zero_of_not_mem (apart accepted member)])

end Limits

/-- A connection gets two responses at most, and one where no descriptor is
accepted again while its event waits. -/
theorem answers_le_of_run {config : Config} {actions : List Action} {last : Served}
    (run : Run (serve config) anything (Served.start config) actions last) (fd : Int) :
    last.answers fd ≤ 2 ∧
      (Run (serve config) Apart (Served.start config) actions last → last.answers fd ≤ 1) :=
  ⟨(limited_two run).answers_le fd, fun apart => (limited_one apart).answers_le fd⟩

instance (served : Served) (action : Action) : Decidable (Apart served action) :=
  match action with
  | .wait _ => isTrue trivial
  | .handle results _ =>
      inferInstanceAs (Decidable (∀ accepted ∈ results.accepted,
        accepted.fd ∉ served.thread.pending.tail.map Prod.fst))
  | .elsewhere _ => isTrue trivial

def nothing : Arrival := ⟨.wouldBlock, fun _ => 0, false⟩

/-- A client is accepted, sets a key, and cannot be reported again. -/
def oneCommand : List Action :=
  [.wait [(3, .readable)], .handle EpollServer.Sample.oneClient nothing,
    .wait [(10, .readable)],
    .handle EpollServer.Sample.calm ⟨.bytes (bytes "set a 1"), fun _ => 0, true⟩]

/-- What the run below is about. -/
def seen (served : Served) : Nat × Values × Interest :=
  (served.answers 10, served.values, served.thread.epoll 10)

theorem answers_le_of_run_command : ∃ last,
    Run (serve EpollServer.Sample.config) Apart (Served.start EpollServer.Sample.config) oneCommand
      last ∧
    seen last = (1, [(bytes "a", bytes "1")], Interest.disarmed) ∧ last.answers 10 ≤ 1 := by
  have executes : (exec (guarded (serve EpollServer.Sample.config) Apart)
      (Served.start EpollServer.Sample.config) oneCommand).map seen =
      some (1, [(bytes "a", bytes "1")], Interest.disarmed) := by
    decide
  obtain ⟨last, run, shows⟩ := exists_run_of_exec_guarded executes
  refine ⟨last, run, shows, ?_⟩
  exact (answers_le_of_run (run.mono fun _ _ _ => trivial) 10).2 run

end Ponal

end Libjaypea
