import Libjaypea.EpollThread

/-!
# The bookkeeping of a server thread

In a run whose events all concern tracked clients and whose timers all work,
the two maps are inverse to each other, their clients are the open ones, the
counter is their number, and every client is closed and reported once.
-/

namespace Libjaypea

namespace EpollServer

/-- The accepted clients that are not closed yet. -/
def openClients : List ClientEvent → List Int
  | [] => []
  | .accepted fd :: earlier => fd :: openClients earlier
  | .closed fd :: earlier => (openClients earlier).erase fd
  | .disconnected _ :: earlier => openClients earlier

/-- The client was not reported since it was accepted. -/
def Unreported (client : Int) : List ClientEvent → Prop
  | [] => False
  | .accepted fd :: earlier => fd = client ∨ Unreported client earlier
  | .closed _ :: earlier => Unreported client earlier
  | .disconnected fd :: earlier => fd ≠ client ∧ Unreported client earlier

/-- Only open clients were closed, and only unreported ones reported. -/
def AtMostOnce : List ClientEvent → Prop
  | [] => True
  | .accepted _ :: earlier => AtMostOnce earlier
  | .closed fd :: earlier => fd ∈ openClients earlier ∧ AtMostOnce earlier
  | .disconnected fd :: earlier => Unreported fd earlier ∧ AtMostOnce earlier

/-- What the thread's variables say about its clients. -/
structure Bookkeeping (config : Config) (state : ThreadState) : Prop where
  inverse : ∀ client timer, KeyedList.get? state.clientToTimer client = some timer ↔
    KeyedList.get? state.timerToClient timer = some client
  clients : ∀ client, client ∈ KeyedList.keys state.clientToTimer ↔ client ∈ openClients state.log
  distinct : (openClients state.log).Nodup
  count : state.numConnections.toNat = (openClients state.log).length
  bounded : state.numConnections ≤ config.maxConnections
  once : AtMostOnce state.log

def Config.isSpecial (config : Config) (fd : Int) : Prop :=
  fd = config.serverFd ∨ fd = config.timeoutEpollFd ∨ fd = config.broadcastFd

/-- A connection that is kept gets a timer. -/
def Accepted.Timed (accepted : Accepted) : Prop :=
  accepted.rejected = false → accepted.added = true →
    accepted.timer ≠ none ∧ accepted.settime = true

/-- The events and results that the thread is made for: an event of a client
comes while the client is tracked, the descriptors of the server itself have
no errors, timers can be created and set, and an expired timer can be closed. -/
structure OrderlyEvent (config : Config) (state : ThreadState) (results : Results) (fd : Int)
    (signal : Signal) : Prop where
  tracked : ¬ config.isSpecial fd → fd ∈ KeyedList.keys state.clientToTimer
  sound : config.isSpecial fd → signal = .readable
  closes : fd = config.timeoutEpollFd → ∀ timers, results.expired = some timers →
    ∀ timer ∈ timers, results.closes timer = true
  timed : fd = config.serverFd → ∀ accepted ∈ results.accepted, accepted.Timed

def Orderly (config : Config) (state : ThreadState) : ThreadAction → Prop
  | .wait _ => True
  | .handle results => ∀ fd signal rest, state.pending = (fd, signal) :: rest →
      OrderlyEvent config state results fd signal

/-- The bookkeeping, with what it rests on: descriptors in use are open, no
client is a timer, neither is one of the server's own descriptors, and the
registered timers are tracked. -/
structure Sound (config : Config) (state : ThreadState) : Prop
    extends Bookkeeping config state where
  unreported : ∀ client ∈ openClients state.log, Unreported client state.log
  clientOpen : ∀ client ∈ openClients state.log, state.isOpen client = true
  timerOpen : ∀ timer client, KeyedList.get? state.timerToClient timer = some client →
    state.isOpen timer = true
  apart : ∀ client ∈ openClients state.log, KeyedList.get? state.timerToClient client = none
  registered : ∀ timer, state.timeoutEpoll timer ≠ none →
    KeyedList.get? state.timerToClient timer ≠ none
  special : ∀ fd, config.isSpecial fd → state.isOpen fd = true ∧
    fd ∉ openClients state.log ∧ KeyedList.get? state.timerToClient fd = none

section Sound

variable {config : Config} {state next : ThreadState}

theorem tracked_iff {client : Int} : client ∈ KeyedList.keys state.clientToTimer ↔
    ∃ timer, KeyedList.get? state.clientToTimer client = some timer := by
  rw [← Option.ne_none_iff_exists', Ne, KeyedList.get?_eq_none_iff, not_not]

theorem sound_start (config : Config) : Sound config (ThreadState.start config) where
  inverse client timer := by simp [ThreadState.start]
  clients client := by simp [ThreadState.start, openClients, KeyedList.keys]
  distinct := List.nodup_nil
  count := rfl
  bounded := by
    rw [UInt64.le_iff_toNat_le]
    exact Nat.zero_le _
  once := trivial
  unreported client member := by cases member
  clientOpen client member := by cases member
  timerOpen timer client tracked := by cases tracked
  apart client member := by cases member
  registered timer entry := absurd rfl entry
  special fd isSpecial := ⟨decide_eq_true isSpecial, List.not_mem_nil, rfl⟩

/-- The bookkeeping does not look at the entries of the epoll or at the batch. -/
theorem Sound.of_same (sound : Sound config state)
    (clientToTimer : next.clientToTimer = state.clientToTimer)
    (timerToClient : next.timerToClient = state.timerToClient)
    (numConnections : next.numConnections = state.numConnections)
    (isOpen : next.isOpen = state.isOpen) (log : next.log = state.log)
    (registered : ∀ timer, next.timeoutEpoll timer ≠ none → state.timeoutEpoll timer ≠ none) :
    Sound config next where
  inverse := by
    rw [clientToTimer, timerToClient]
    exact sound.inverse
  clients := by
    rw [clientToTimer, log]
    exact sound.clients
  distinct := by
    rw [log]
    exact sound.distinct
  count := by
    rw [numConnections, log]
    exact sound.count
  bounded := by
    rw [numConnections]
    exact sound.bounded
  once := by
    rw [log]
    exact sound.once
  unreported := by
    rw [log]
    exact sound.unreported
  clientOpen := by
    rw [log, isOpen]
    exact sound.clientOpen
  timerOpen := by
    rw [timerToClient, isOpen]
    exact sound.timerOpen
  apart := by
    rw [log, timerToClient]
    exact sound.apart
  registered timer entry := by
    rw [timerToClient]
    exact sound.registered timer (registered timer entry)
  special := by
    rw [isOpen, log, timerToClient]
    exact sound.special

theorem Bookkeeping.release (books : Bookkeeping config state) {client timer : Int}
    (tracked : KeyedList.get? state.clientToTimer client = some timer)
    (unreported : Unreported client state.log)
    (clientToTimer : next.clientToTimer = KeyedList.erase state.clientToTimer client)
    (timerToClient : next.timerToClient = KeyedList.erase state.timerToClient timer)
    (numConnections : next.numConnections = state.numConnections - 1)
    (log : next.log = .disconnected client :: .closed client :: state.log) :
    Bookkeeping config next := by
  have isClient : client ∈ openClients state.log :=
    (books.clients client).mp (tracked_iff.mpr ⟨timer, tracked⟩)
  have remaining : openClients next.log = (openClients state.log).erase client := by
    rw [log]
    rfl
  have positive : state.numConnections ≠ 0 := by
    intro zero
    have count := books.count
    rw [zero] at count
    exact List.ne_nil_of_mem isClient (List.eq_nil_of_length_eq_zero count.symm)
  refine ⟨?_, ?_, ?_, ?_, ?_, ?_⟩
  · rw [clientToTimer, timerToClient]
    exact KeyedList.Inverse.erase books.inverse tracked
  · intro one
    rw [remaining, books.distinct.mem_erase_iff, ← books.clients one, tracked_iff, tracked_iff,
      clientToTimer]
    simp only [KeyedList.get?_erase]
    by_cases same : client = one
    · subst same
      simp
    · simp [same, Ne.symm same]
  · rw [remaining]
    exact books.distinct.erase client
  · rw [numConnections, toNat_sub_one positive, books.count, remaining,
      List.length_erase_of_mem isClient]
  · rw [numConnections]
    exact UInt64.le_of_lt (sub_one_lt positive books.bounded)
  · rw [log]
    exact ⟨unreported, isClient, books.once⟩

/-- A tracked client and its timer are closed, erased, reported and counted off. -/
theorem Sound.release (sound : Sound config state) {client timer : Int}
    (tracked : KeyedList.get? state.clientToTimer client = some timer)
    (clientToTimer : next.clientToTimer = KeyedList.erase state.clientToTimer client)
    (timerToClient : next.timerToClient = KeyedList.erase state.timerToClient timer)
    (numConnections : next.numConnections = state.numConnections - 1)
    (isOpen : next.isOpen =
      Function.update (Function.update state.isOpen timer false) client false)
    (timeoutEpoll : next.timeoutEpoll =
      Function.update (Function.update state.timeoutEpoll timer none) client none)
    (log : next.log = .disconnected client :: .closed client :: state.log) :
    Sound config next := by
  have back := (sound.inverse client timer).mp tracked
  have isClient : client ∈ openClients state.log :=
    (sound.clients client).mp (tracked_iff.mpr ⟨timer, tracked⟩)
  have staysClient : ∀ other, other ∈ openClients next.log ↔
      other ≠ client ∧ other ∈ openClients state.log := by
    intro other
    rw [log]
    exact sound.distinct.mem_erase_iff
  have notTimer : ∀ other, KeyedList.get? state.timerToClient other = none → other ≠ timer := by
    rintro other absent rfl
    rw [absent] at back
    cases back
  have stays : ∀ other, other ≠ client → other ≠ timer → next.isOpen other = state.isOpen other := by
    intro other notClient notTimer
    rw [isOpen, Function.update_of_ne notClient, Function.update_of_ne notTimer]
  have untimed : ∀ other, KeyedList.get? state.timerToClient other = none →
      KeyedList.get? next.timerToClient other = none := by
    intro other absent
    rw [timerToClient, KeyedList.get?_erase, absent, ite_self]
  have books := sound.toBookkeeping.release tracked (sound.unreported client isClient)
    clientToTimer timerToClient numConnections log
  refine ⟨books, ?_, ?_, ?_, ?_, ?_, ?_⟩
  · intro one member
    rw [staysClient] at member
    rw [log]
    exact ⟨Ne.symm member.1, sound.unreported one member.2⟩
  · intro one member
    rw [staysClient] at member
    rw [stays one member.1 (notTimer one (sound.apart one member.2))]
    exact sound.clientOpen one member.2
  · intro other one found
    rw [timerToClient, KeyedList.get?_erase] at found
    split at found
    · cases found
    · rename_i different
      have notClient : other ≠ client := by
        rintro rfl
        rw [sound.apart other isClient] at found
        cases found
      rw [stays other notClient (Ne.symm different)]
      exact sound.timerOpen other one found
  · intro one member
    rw [staysClient] at member
    exact untimed one (sound.apart one member.2)
  · intro other entry
    rw [timeoutEpoll] at entry
    have notClient : other ≠ client := by
      rintro rfl
      simp at entry
    rw [Function.update_of_ne notClient] at entry
    have different : other ≠ timer := by
      rintro rfl
      simp at entry
    rw [Function.update_of_ne different] at entry
    rw [timerToClient, KeyedList.get?_erase, if_neg (Ne.symm different)]
    exact sound.registered other entry
  · intro fd isSpecial
    obtain ⟨opened, noClient, noTimer⟩ := sound.special fd isSpecial
    have notClient : fd ≠ client := by
      rintro rfl
      exact noClient isClient
    refine ⟨?_, ?_, untimed fd noTimer⟩
    · rw [stays fd notClient (notTimer fd noTimer)]
      exact opened
    · rw [staysClient]
      exact fun member => noClient member.2

/-- A descriptor that is not in use is in none of the books. -/
theorem Sound.fresh (sound : Sound config state) {fd : Int} (closed : state.isOpen fd = false) :
    fd ∉ openClients state.log ∧ KeyedList.get? state.timerToClient fd = none := by
  constructor
  · intro member
    rw [sound.clientOpen fd member] at closed
    cases closed
  · cases found : KeyedList.get? state.timerToClient fd with
    | none => rfl
    | some client =>
        rw [sound.timerOpen fd client found] at closed
        cases closed

theorem Bookkeeping.track (books : Bookkeeping config state) {client timer : Int}
    (below : state.numConnections < config.maxConnections)
    (newClient : client ∉ openClients state.log)
    (newTimer : KeyedList.get? state.timerToClient timer = none)
    (clientToTimer : next.clientToTimer = KeyedList.set state.clientToTimer client timer)
    (timerToClient : next.timerToClient = KeyedList.set state.timerToClient timer client)
    (numConnections : next.numConnections = state.numConnections + 1)
    (log : next.log = .accepted client :: state.log) : Bookkeeping config next := by
  have clients : openClients next.log = client :: openClients state.log := by
    rw [log]
    rfl
  have untracked : KeyedList.get? state.clientToTimer client = none := by
    rw [KeyedList.get?_eq_none_iff, books.clients]
    exact newClient
  refine ⟨?_, ?_, ?_, ?_, ?_, ?_⟩
  · rw [clientToTimer, timerToClient]
    exact KeyedList.Inverse.set books.inverse untracked newTimer
  · intro one
    rw [clients, clientToTimer, KeyedList.mem_keys_set, List.mem_cons, books.clients one]
  · rw [clients]
    exact List.nodup_cons.mpr ⟨newClient, books.distinct⟩
  · rw [numConnections, toNat_add_one below, books.count, clients, List.length_cons]
  · rw [numConnections]
    exact add_one_le below
  · rw [log]
    exact books.once

/-- A new client and its timer are tracked and counted. -/
theorem Sound.track (sound : Sound config state) {client timer : Int}
    (below : state.numConnections < config.maxConnections)
    (clientFresh : state.isOpen client = false) (timerFresh : state.isOpen timer = false)
    (different : timer ≠ client)
    (clientToTimer : next.clientToTimer = KeyedList.set state.clientToTimer client timer)
    (timerToClient : next.timerToClient = KeyedList.set state.timerToClient timer client)
    (numConnections : next.numConnections = state.numConnections + 1)
    (isOpen : next.isOpen = Function.update (Function.update state.isOpen client true) timer true)
    (timeoutEpoll : ∀ other, other ≠ timer → next.timeoutEpoll other = state.timeoutEpoll other)
    (log : next.log = .accepted client :: state.log) : Sound config next := by
  have clients : ∀ one, one ∈ openClients next.log ↔
      one = client ∨ one ∈ openClients state.log := by
    intro one
    rw [log]
    exact List.mem_cons
  obtain ⟨newClient, clientNoTimer⟩ := sound.fresh clientFresh
  obtain ⟨timerNoClient, newTimer⟩ := sound.fresh timerFresh
  have opens : ∀ other, other = client ∨ other = timer ∨ state.isOpen other = true →
      next.isOpen other = true := by
    intro other known
    rw [isOpen]
    simp only [Function.update_apply]
    split_ifs with isTimer isClient
    · rfl
    · rfl
    · simpa [isTimer, isClient] using known
  have books := sound.toBookkeeping.track below newClient newTimer clientToTimer timerToClient
    numConnections log
  refine ⟨books, ?_, ?_, ?_, ?_, ?_, ?_⟩
  · intro one member
    rw [clients] at member
    rw [log]
    exact member.imp Eq.symm (sound.unreported one)
  · intro one member
    rw [clients] at member
    exact opens one (member.imp_right fun old => .inr (sound.clientOpen one old))
  · intro other one found
    rw [timerToClient, KeyedList.get?_set] at found
    split at found
    · rename_i isTimer
      exact opens other (.inr (.inl isTimer.symm))
    · exact opens other (.inr (.inr (sound.timerOpen other one found)))
  · intro one member
    rw [clients] at member
    rw [timerToClient, KeyedList.get?_set]
    rcases member with rfl | old
    · rw [if_neg different]
      exact clientNoTimer
    · have notTimer : timer ≠ one := by
        rintro rfl
        exact timerNoClient old
      rw [if_neg notTimer]
      exact sound.apart one old
  · intro other entry
    rw [timerToClient, KeyedList.get?_set]
    by_cases sameTimer : timer = other
    · simp [sameTimer]
    · rw [if_neg sameTimer]
      rw [timeoutEpoll other (Ne.symm sameTimer)] at entry
      exact sound.registered other entry
  · intro fd isSpecial
    obtain ⟨opened, noClient, noTimer⟩ := sound.special fd isSpecial
    have inUse : ∀ other, state.isOpen other = false → other ≠ fd := by
      rintro other closed rfl
      rw [opened] at closed
      cases closed
    refine ⟨opens fd (.inr (.inr opened)), ?_, ?_⟩
    · rw [clients, not_or]
      exact ⟨Ne.symm (inUse client clientFresh), noClient⟩
    · rw [timerToClient, KeyedList.get?_set, if_neg (inUse timer timerFresh)]
      exact noTimer

/-- A client that is given up at once leaves only its traces in the log. -/
theorem Sound.reject (sound : Sound config state) {client : Int}
    (fresh : state.isOpen client = false)
    (clientToTimer : next.clientToTimer = state.clientToTimer)
    (timerToClient : next.timerToClient = state.timerToClient)
    (numConnections : next.numConnections = state.numConnections)
    (isOpen : ∀ other, other ≠ client → next.isOpen other = state.isOpen other)
    (timeoutEpoll : ∀ other, next.timeoutEpoll other ≠ none → state.timeoutEpoll other ≠ none)
    (log : next.log = .closed client :: .accepted client :: state.log) : Sound config next := by
  have clients : openClients next.log = openClients state.log := by
    rw [log, openClients, openClients, List.erase_cons_head]
  have stays : ∀ other, state.isOpen other = true → next.isOpen other = true := by
    intro other wasOpen
    have different : other ≠ client := by
      rintro rfl
      rw [fresh] at wasOpen
      cases wasOpen
    rw [isOpen other different]
    exact wasOpen
  refine ⟨⟨?_, ?_, ?_, ?_, ?_, ?_⟩, ?_, ?_, ?_, ?_, ?_, ?_⟩
  · rw [clientToTimer, timerToClient]
    exact sound.inverse
  · rw [clientToTimer, clients]
    exact sound.clients
  · rw [clients]
    exact sound.distinct
  · rw [numConnections, clients]
    exact sound.count
  · rw [numConnections]
    exact sound.bounded
  · rw [log]
    exact ⟨List.mem_cons_self, sound.once⟩
  · intro one member
    rw [clients] at member
    rw [log]
    exact .inr (sound.unreported one member)
  · intro one member
    rw [clients] at member
    exact stays one (sound.clientOpen one member)
  · intro other one found
    rw [timerToClient] at found
    exact stays other (sound.timerOpen other one found)
  · rw [clients, timerToClient]
    exact sound.apart
  · intro other entry
    rw [timerToClient]
    exact sound.registered other (timeoutEpoll other entry)
  · intro fd isSpecial
    obtain ⟨opened, noClient, noTimer⟩ := sound.special fd isSpecial
    rw [clients, timerToClient]
    exact ⟨stays fd opened, noClient, noTimer⟩

theorem Sound.rearm (sound : Sound config state) (results : Results) (fd : Int) :
    Sound config (state.rearm results fd) := by
  unfold ThreadState.rearm
  split
  · exact sound.of_same rfl rfl rfl rfl rfl fun _ entry => entry
  · exact sound

theorem Sound.closeOnError (sound : Sound config state) (results : Results) {fd : Int}
    (tracked : fd ∈ KeyedList.keys state.clientToTimer) :
    Sound config (state.closeOnError config results fd) := by
  obtain ⟨timer, found⟩ := tracked_iff.mp tracked
  unfold ThreadState.closeOnError
  rw [found]
  exact sound.release found rfl rfl rfl rfl rfl rfl

theorem Sound.handleClient (sound : Sound config state) (results : Results) {fd : Int}
    (tracked : fd ∈ KeyedList.keys state.clientToTimer) :
    Sound config (state.handleClient config results fd) := by
  obtain ⟨timer, found⟩ := tracked_iff.mp tracked
  have known := KeyedList.contains_iff.mpr tracked
  unfold ThreadState.handleClient
  dsimp only
  rw [found, if_pos known]
  split_ifs
  · exact sound
  · exact sound.release found rfl rfl rfl rfl rfl rfl
  · exact sound
  · exact sound.rearm results fd

theorem Sound.expire (sound : Sound config state) (results : Results) {timer client : Int}
    (tracked : KeyedList.get? state.timerToClient timer = some client)
    (closes : results.closes timer = true) :
    Sound config (ThreadState.expire config results state timer) := by
  unfold ThreadState.expire
  rw [tracked, if_pos closes]
  exact sound.release ((sound.inverse client timer).mpr tracked) rfl rfl rfl rfl rfl rfl

/-- The other timers stay tracked while one expires. -/
theorem timerToClient_expire (results : Results) {timer other : Int} (different : other ≠ timer) :
    KeyedList.get? (ThreadState.expire config results state timer).timerToClient other =
      KeyedList.get? state.timerToClient other := by
  have erased : (ThreadState.expire config results state timer).timerToClient =
      KeyedList.erase state.timerToClient timer := by
    unfold ThreadState.expire
    dsimp only
    split <;> rfl
  rw [erased, KeyedList.get?_erase, if_neg (Ne.symm different)]

theorem tracked_expire (config : Config) (results : Results) {timer : Int} {rest : List Int}
    (distinct : timer ∉ rest)
    (tracked : ∀ other ∈ timer :: rest, KeyedList.get? state.timerToClient other ≠ none) :
    ∀ other ∈ rest,
      KeyedList.get? (ThreadState.expire config results state timer).timerToClient other ≠
        none := by
  intro other member
  have different : other ≠ timer := by
    rintro rfl
    exact distinct member
  rw [timerToClient_expire results different]
  exact tracked other (List.mem_cons_of_mem _ member)

theorem Sound.expireAll (sound : Sound config state) (results : Results) {timers : List Int}
    (distinct : timers.Nodup)
    (tracked : ∀ timer ∈ timers, KeyedList.get? state.timerToClient timer ≠ none)
    (closes : ∀ timer ∈ timers, results.closes timer = true) :
    Sound config (timers.foldl (ThreadState.expire config results) state) := by
  induction timers generalizing state with
  | nil => exact sound
  | cons timer rest ih =>
      rw [List.nodup_cons] at distinct
      obtain ⟨client, found⟩ := Option.ne_none_iff_exists'.mp (tracked timer List.mem_cons_self)
      have expired := sound.expire results found (closes timer List.mem_cons_self)
      rw [List.foldl_cons]
      apply ih expired distinct.2 (tracked_expire config results distinct.1 tracked)
      intro other member
      exact closes other (List.mem_cons_of_mem _ member)

/-- The timers that have expired are tracked ones. -/
theorem Sound.takeExpired (sound : Sound config state) {timers : List Int}
    (takes : state.takeExpired timers = some next) :
    Sound config next ∧ timers.Nodup ∧
      ∀ timer ∈ timers, KeyedList.get? next.timerToClient timer ≠ none := by
  unfold ThreadState.takeExpired at takes
  rw [Option.ite_none_right_eq_some] at takes
  obtain ⟨⟨distinct, isArmed⟩, takes⟩ := takes
  cases takes
  refine ⟨?_, distinct, fun timer member => ?_⟩
  · refine sound.of_same rfl rfl rfl rfl rfl fun timer entry => ?_
    by_cases member : timer ∈ timers
    · simp [isArmed timer member, Interest.armed]
    · simpa [member] using entry
  · apply sound.registered
    simp [isArmed timer member, Interest.armed]

theorem Sound.handleTimeouts (sound : Sound config state) {results : Results}
    (closes : ∀ timers, results.expired = some timers →
      ∀ timer ∈ timers, results.closes timer = true)
    (handles : state.handleTimeouts config results = some next) : Sound config next := by
  unfold ThreadState.handleTimeouts at handles
  cases expired : results.expired with
  | none =>
      simp only [expired] at handles
      cases handles
      exact sound
  | some timers =>
      simp only [expired] at handles
      obtain ⟨taken, takes, rfl⟩ := Option.map_eq_some_iff.mp handles
      obtain ⟨kept, distinct, tracked⟩ := sound.takeExpired takes
      apply Sound.rearm
      exact kept.expireAll results distinct tracked (closes timers expired)

theorem Sound.accept (sound : Sound config state) {accepted : Accepted} {goesOn : Bool}
    (below : state.numConnections < config.maxConnections)
    (timed : accepted.Timed) (accepts : state.accept accepted = some (goesOn, next)) : Sound config next := by
  unfold ThreadState.accept at accepts
  dsimp only at accepts
  split at accepts
  · cases accepts
  · rename_i fresh
    have clientFresh : state.isOpen accepted.fd = false := by simpa using fresh
    split at accepts
    · cases accepts
      refine sound.reject clientFresh rfl rfl rfl ?_ ?_ rfl
      · intro other different
        exact (Function.update_of_ne different ..).trans (Function.update_of_ne different ..)
      · intro other entry
        by_cases same : other = accepted.fd
        · subst same
          simp [ThreadState.closeFd] at entry
        · simpa [ThreadState.closeFd, same] using entry
    · rename_i keeps
      rw [not_or, Bool.not_eq_true, Bool.not_eq_true, Bool.not_eq_false'] at keeps
      have timed := timed keeps.1 keeps.2
      obtain ⟨created, starts, equal⟩ := Option.map_eq_some_iff.mp accepts
      obtain ⟨timer, made⟩ := Option.ne_none_iff_exists'.mp timed.1
      cases equal
      simp only [ThreadState.startTimer, made, timed.2, if_true] at starts
      split at starts
      · cases starts
      · rename_i unused
        cases starts
        have different : timer ≠ accepted.fd := by
          rintro rfl
          simp at unused
        have timerFresh : state.isOpen timer = false := by simpa [different] using unused
        refine sound.track below clientFresh timerFresh different rfl rfl rfl rfl ?_ rfl
        intro other notTimer
        dsimp only
        split
        · exact Function.update_of_ne notTimer ..
        · rfl

theorem Sound.acceptLoop (sound : Sound config state) {accepted : List Accepted}
    (timed : ∀ one ∈ accepted, one.Timed)
    (loops : ThreadState.acceptLoop config accepted state = some next) : Sound config next := by
  induction accepted generalizing state with
  | nil =>
      cases loops
      exact sound
  | cons one rest ih =>
      unfold ThreadState.acceptLoop at loops
      split at loops
      · rename_i below
        obtain ⟨⟨goesOn, after⟩, accepts, later⟩ := Option.bind_eq_some_iff.mp loops
        have kept := sound.accept below (timed one List.mem_cons_self) accepts
        dsimp only at later
        split at later
        · exact ih kept (fun other member => timed other (List.mem_cons_of_mem _ member)) later
        · cases later
          exact kept
      · cases loops
        exact sound

theorem Sound.handleServer (sound : Sound config state) {results : Results}
    (timed : ∀ one ∈ results.accepted, one.Timed)
    (handles : state.handleServer config results = some next) : Sound config next := by
  unfold ThreadState.handleServer at handles
  split at handles
  · obtain ⟨after, loops, rfl⟩ := Option.map_eq_some_iff.mp handles
    have kept := sound.acceptLoop timed loops
    split
    · exact kept.of_same rfl rfl rfl rfl rfl fun _ entry => entry
    · exact kept
  · cases handles
    exact sound

theorem Sound.handleEvent (sound : Sound config state) {results : Results} {fd : Int}
    {signal : Signal} (orderly : OrderlyEvent config state results fd signal)
    (handles : state.handleEvent config results fd signal = some next) : Sound config next := by
  unfold ThreadState.handleEvent at handles
  split_ifs at handles with error timeout broadcast server
  · cases handles
    apply sound.closeOnError results
    apply orderly.tracked
    intro special
    rw [orderly.sound special] at error
    cases error
  · exact sound.handleTimeouts (orderly.closes timeout) handles
  · cases handles
    exact sound.rearm results fd
  · exact sound.handleServer (orderly.timed server) handles
  · cases handles
    apply sound.handleClient results
    apply orderly.tracked
    rintro (isServer | isTimeout | isBroadcast)
    · exact server isServer
    · exact timeout isTimeout
    · exact broadcast isBroadcast

theorem Sound.pop (sound : Sound config state) (rest : List (Int × Signal)) :
    Sound config { state with pending := rest } :=
  sound.of_same rfl rfl rfl rfl rfl fun _ entry => entry

/-- One batch taken, or one event handled. -/
theorem Sound.stepEvents (sound : Sound config state) {action : ThreadAction}
    (orderly : Orderly config state action)
    (steps : stepEvents config state action = some next) : Sound config next := by
  cases eventStep_of_stepEvents steps with
  | wait idle distinct isArmed => exact sound.of_same rfl rfl rfl rfl rfl fun _ entry => entry
  | @handle results fd signal rest next batch handles =>
      have event := orderly fd signal rest batch
      exact (sound.pop rest).handleEvent
        ⟨event.tracked, event.sound, event.closes, event.timed⟩ handles

end Sound

theorem sound_of_orderly {config : Config} {actions : List ThreadAction} {state : ThreadState}
    (run : Transitions.Run (stepEvents config) (Orderly config) (ThreadState.start config) actions
      state) : Sound config state := by
  apply run.invariant _ (sound_start config)
  intro first action next holds orderly steps
  exact holds.stepEvents orderly steps

/-- The books are right in every state between two events of an orderly run. -/
theorem bookkeeping_of_orderly {config : Config} {actions : List ThreadAction} {state : ThreadState}
    (run : Transitions.Run (stepEvents config) (Orderly config) (ThreadState.start config) actions
      state) : Bookkeeping config state :=
  (sound_of_orderly run).toBookkeeping

namespace Sample

def config : Config := ⟨3, 5, 6, 2⟩

/-- Every call succeeds and nothing is there. -/
def calm : Results := ⟨fun _ => true, fun _ => true, true, [], some [], true, 0⟩

def oneClient : Results :=
  { calm with accepted := [⟨10, false, true, some 11, true, true⟩] }

def timerExpires : Results :=
  { calm with expired := some [11] }

theorem orderly_oneClient {state : ThreadState} {rest : List (Int × Signal)}
    (pending : state.pending = (3, .readable) :: rest) :
    Orderly config state (.handle oneClient) := by
  intro fd signal others batch
  cases pending.symm.trans batch
  refine ⟨fun ordinary => absurd (.inl rfl) ordinary, fun _ => rfl, ?_, ?_⟩
  · intro timeout
    cases timeout
  · intro _ accepted member
    cases List.mem_singleton.mp member
    exact fun _ _ => ⟨Option.some_ne_none 11, rfl⟩

end Sample

/-- A client is accepted and times out. -/
theorem bookkeeping_of_orderly_timeout :
    ∃ state, Transitions.Run (stepEvents Sample.config) (Orderly Sample.config)
        (ThreadState.start Sample.config)
        [.wait [(3, .readable)], .handle Sample.oneClient, .wait [(5, .readable)],
          .handle Sample.timerExpires] state ∧
      state.log = [.disconnected 10, .closed 10, .accepted 10] ∧
      Bookkeeping Sample.config state := by
  obtain ⟨state, run, log⟩ : ∃ state, Transitions.Run (stepEvents Sample.config)
      (Orderly Sample.config) (ThreadState.start Sample.config)
      [.wait [(3, .readable)], .handle Sample.oneClient, .wait [(5, .readable)],
        .handle Sample.timerExpires] state ∧
      state.log = [.disconnected 10, .closed 10, .accepted 10] := by
    refine ⟨_, .cons trivial rfl (.cons ?_ rfl (.cons trivial rfl (.cons ?_ rfl (.nil _)))), rfl⟩
    · exact Sample.orderly_oneClient rfl
    · intro fd signal rest batch
      cases batch
      refine ⟨fun ordinary => absurd (.inr (.inl rfl)) ordinary, fun _ => rfl, ?_, ?_⟩
      · intro _ timers _ timer _
        rfl
      · intro server
        cases server
  exact ⟨state, run, log, bookkeeping_of_orderly run⟩

/-- The timeout of a client and an error of the same client in one batch. -/
theorem exists_not_bookkeeping :
    ∃ state, Transitions.Run (stepEvents Sample.config) Transitions.anything
        (ThreadState.start Sample.config)
        [.wait [(3, .readable)], .handle Sample.oneClient,
          .wait [(5, .readable), (10, .error)], .handle Sample.timerExpires,
          .handle Sample.calm] state ∧
      state.numConnections = 18446744073709551615 ∧
      state.log = [.disconnected 10, .closed 10, .disconnected 10, .closed 10, .accepted 10] ∧
      ¬ Bookkeeping Sample.config state := by
  refine ⟨_, .cons trivial rfl (.cons trivial rfl (.cons trivial rfl (.cons trivial rfl
    (.cons trivial rfl (.nil _))))), rfl, rfl, ?_⟩
  intro books
  have wrapped : ¬ (0 : UInt64) + 1 - 1 - 1 ≤ 2 := by decide
  exact wrapped books.bounded

end EpollServer

end Libjaypea
