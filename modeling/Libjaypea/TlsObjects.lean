import Libjaypea.ClientRearm
import Libjaypea.KeyedTables
import Libjaypea.ThreadChanges

/-!
# The SSL objects of the TLS server

`TlsEpollServer` makes an SSL object for a connection in `accept_continuation`,
and frees it in `close_client`.  Whatever the threads do, none is freed twice; and
in an orderly run of a thread exactly the clients that are open have one.  The
objects are told apart by the number of connections accepted before.
-/

namespace Libjaypea

namespace TlsEpollServer

open EpollServer

/-- What `SSL_get_error` says about a call of `SSL_accept`. -/
inductive AcceptResult
  | none
  | wantRead
  | wantWrite
  | other
  deriving DecidableEq

/-- The calls that are made for one connection. -/
structure Handshake where
  /-- `SSL_new` gives an object. -/
  created : Bool
  setFd : Bool
  /-- The calls of `SSL_accept`, each with the time that has passed since the first. -/
  attempts : List (AcceptResult × Nat)

/-- The loop of `accept_continuation`; `none` while the last call wants to read or write. -/
def accept (diff : Nat) : List (AcceptResult × Nat) → Option Bool
  | [] => if diff > timeout then some true else none
  | (result, elapsed) :: later =>
      if diff > timeout then some true
      else
        match result with
        | .wantRead => accept elapsed later
        | .wantWrite => accept elapsed later
        | .none => some false
        | .other => some true

/-- Whether the connection should be closed. -/
def acceptContinuation (handshake : Handshake) : Option Bool :=
  if !handshake.created then some true
  else if !handshake.setFd then some true
  else accept 0 handshake.attempts

structure Ssl where
  /-- `client_ssl`, in which a null pointer is `none`. -/
  clientSsl : List (Int × Option Nat)
  /-- The objects that exist. -/
  live : List Nat

namespace Ssl

/-- `SSL_free`, which does nothing to a null pointer; `none` if the object is gone already. -/
def free (live : List Nat) : Option Nat → Option (List Nat)
  | none => some live
  | some object => if object ∈ live then some (live.erase object) else none

/-- `SSL_new`. -/
def new (ssl : Ssl) (fd : Int) (created : Bool) (object : Nat) : Ssl where
  clientSsl := KeyedList.set ssl.clientSsl fd (if created then some object else none)
  live := if created then object :: ssl.live else ssl.live

/-- `operator[]` gives a null pointer for an unknown client. -/
def closeClient (ssl : Ssl) (fd : Int) : Option Ssl :=
  (free ssl.live ((KeyedList.get? ssl.clientSsl fd).getD none)).map fun live =>
    ⟨KeyedList.erase ssl.clientSsl fd, live⟩

/-- The loop of the destructor. -/
def destroy (ssl : Ssl) : Option (List Nat) :=
  ssl.clientSsl.foldlM (fun live entry => free live entry.2) ssl.live

end Ssl

/-- The connections that were accepted. -/
def accepts (log : List ClientEvent) : Nat :=
  log.countP fun
    | .accepted _ => true
    | _ => false

/-- The objects after what happened to the clients, for the handshakes in the order
in which they were made. -/
def objects (handshake : Nat → Handshake) : List ClientEvent → Option Ssl
  | [] => some ⟨[], []⟩
  | .accepted fd :: earlier =>
      (objects handshake earlier).map fun ssl =>
        ssl.new fd (handshake (accepts earlier)).created (accepts earlier)
  | .closed fd :: earlier => (objects handshake earlier).bind fun ssl => ssl.closeClient fd
  | .disconnected _ :: earlier => objects handshake earlier

section AnyOrder

/-- Every object in the table exists, and it is there once. -/
structure Distinct (ssl : Ssl) (bound : Nat) : Prop where
  keys : (KeyedList.keys ssl.clientSsl).Nodup
  once : ∀ fd other object, KeyedList.get? ssl.clientSsl fd = some (some object) →
    KeyedList.get? ssl.clientSsl other = some (some object) → fd = other
  present : ∀ fd object, KeyedList.get? ssl.clientSsl fd = some (some object) → object ∈ ssl.live
  nodup : ssl.live.Nodup
  below : ∀ object ∈ ssl.live, object < bound

variable {ssl : Ssl} {bound : Nat}

/-- The table has the new object for its connection alone. -/
theorem Ssl.get?_new {fd other : Int} {created : Bool} {made object : Nat}
    (found : KeyedList.get? (ssl.new fd created made).clientSsl other = some (some object)) :
    (fd = other ∧ created = true ∧ object = made) ∨
      (fd ≠ other ∧ KeyedList.get? ssl.clientSsl other = some (some object)) := by
  rw [Ssl.new, KeyedList.get?_set] at found
  split at found
  · rename_i here
    cases created with
    | true =>
        cases found
        exact Or.inl ⟨here, rfl, rfl⟩
    | false => cases found
  · rename_i apart
    exact Or.inr ⟨apart, found⟩

theorem Ssl.mem_live_new {fd : Int} {created : Bool} {made object : Nat} :
    object ∈ (ssl.new fd created made).live ↔
      (created = true ∧ object = made) ∨ object ∈ ssl.live := by
  cases created with
  | true => simp [Ssl.new]
  | false => simp [Ssl.new]

theorem Distinct.new (distinct : Distinct ssl bound) (fd : Int) (created : Bool) :
    Distinct (ssl.new fd created bound) (bound + 1) := by
  have fresh : bound ∉ ssl.live := fun member =>
    absurd (distinct.below bound member) (Nat.lt_irrefl bound)
  have old {other : Int} {object : Nat}
      (found : KeyedList.get? ssl.clientSsl other = some (some object)) : object ≠ bound := by
    rintro rfl
    exact fresh (distinct.present other object found)
  refine ⟨KeyedList.nodup_keys_set distinct.keys fd _, ?_, ?_, ?_, ?_⟩
  · intro one other object first second
    rcases Ssl.get?_new first with ⟨here, -, new⟩ | ⟨-, found⟩
    · rcases Ssl.get?_new second with ⟨same, -, -⟩ | ⟨-, found⟩
      · exact here.symm.trans same
      · exact absurd new (old found)
    · rcases Ssl.get?_new second with ⟨-, -, new⟩ | ⟨-, also⟩
      · exact absurd new (old found)
      · exact distinct.once one other object found also
  · intro other object found
    apply Ssl.mem_live_new.mpr
    rcases Ssl.get?_new found with ⟨-, made, new⟩ | ⟨-, found⟩
    · exact Or.inl ⟨made, new⟩
    · exact Or.inr (distinct.present other object found)
  · cases created with
    | true => exact List.nodup_cons.mpr ⟨fresh, distinct.nodup⟩
    | false => exact distinct.nodup
  · intro object member
    rcases Ssl.mem_live_new.mp member with ⟨-, rfl⟩ | old
    · exact Nat.lt_succ_self object
    · exact Nat.lt_succ_of_lt (distinct.below object old)

/-- A client that is closed twice has its object freed once. -/
theorem Distinct.closeClient (distinct : Distinct ssl bound) (fd : Int) :
    ∃ next, ssl.closeClient fd = some next ∧ Distinct next bound := by
  have keys := distinct.keys.sublist (KeyedList.keys_erase_sublist ssl.clientSsl fd)
  have entry {other : Int} {object : Nat}
      (found : KeyedList.get? (KeyedList.erase ssl.clientSsl fd) other = some (some object)) :
      fd ≠ other ∧ KeyedList.get? ssl.clientSsl other = some (some object) :=
    KeyedList.get?_erase_eq_some_iff.mp found
  have once : ∀ one other object,
      KeyedList.get? (KeyedList.erase ssl.clientSsl fd) one = some (some object) →
        KeyedList.get? (KeyedList.erase ssl.clientSsl fd) other = some (some object) →
          one = other :=
    fun one other object first second =>
      distinct.once one other object (entry first).2 (entry second).2
  rw [Ssl.closeClient]
  cases found : (KeyedList.get? ssl.clientSsl fd).getD none with
  | none =>
      refine ⟨_, rfl, keys, once, ?_, distinct.nodup, distinct.below⟩
      exact fun other object present => distinct.present other object (entry present).2
  | some freed =>
      have stored : KeyedList.get? ssl.clientSsl fd = some (some freed) := by
        cases pointer : KeyedList.get? ssl.clientSsl fd with
        | none => simp [pointer] at found
        | some object => simpa [pointer] using found
      rw [Ssl.free, if_pos (distinct.present fd freed stored), Option.map_some]
      refine ⟨_, rfl, keys, once, ?_, distinct.nodup.erase freed, ?_⟩
      · intro other object present
        obtain ⟨apart, present⟩ := entry present
        have different : object ≠ freed := by
          intro same
          rw [same] at present
          exact apart (distinct.once fd other freed stored present)
        exact (List.mem_erase_of_ne different).mpr (distinct.present other object present)
      · exact fun object member => distinct.below object (List.mem_of_mem_erase member)

/-- In whatever order clients are accepted and closed, by any of the threads, no
object is freed twice. -/
theorem exists_objects (handshake : Nat → Handshake) (log : List ClientEvent) :
    ∃ ssl, objects handshake log = some ssl ∧ Distinct ssl (accepts log) := by
  induction log with
  | nil => exact ⟨_, rfl, by constructor <;> simp [KeyedList.keys]⟩
  | cons event earlier ih =>
      obtain ⟨ssl, made, distinct⟩ := ih
      cases event with
      | accepted fd =>
          refine ⟨_, Option.map_eq_some_iff.mpr ⟨ssl, made, rfl⟩, ?_⟩
          have count : accepts (.accepted fd :: earlier) = accepts earlier + 1 :=
            List.countP_cons_of_pos rfl
          rw [count]
          exact distinct.new fd _
      | closed fd =>
          obtain ⟨next, closes, distinct⟩ := distinct.closeClient fd
          exact ⟨next, Option.bind_eq_some_iff.mpr ⟨ssl, made, closes⟩, distinct⟩
      | disconnected fd => exact ⟨ssl, made, distinct⟩

end AnyOrder

section OneThread

/-- The clients have one object each, and there are no others. -/
structure Matches (ssl : Ssl) (clients : List Int) : Prop where
  owned : ∀ fd, fd ∈ clients ↔ ∃ object, KeyedList.get? ssl.clientSsl fd = some (some object)
  sound : ∀ fd, KeyedList.get? ssl.clientSsl fd ≠ some none
  used : ∀ object ∈ ssl.live, ∃ fd, KeyedList.get? ssl.clientSsl fd = some (some object)

variable {ssl next : Ssl} {bound : Nat} {clients : List Int} {fd : Int}

theorem Matches.get?_eq_none (matched : Matches ssl clients) (absent : fd ∉ clients) :
    KeyedList.get? ssl.clientSsl fd = none := by
  cases found : KeyedList.get? ssl.clientSsl fd with
  | none => rfl
  | some pointer =>
      cases pointer with
      | none => exact absurd found (matched.sound fd)
      | some object => exact absurd ((matched.owned fd).mpr ⟨object, found⟩) absent

theorem Matches.new (matched : Matches ssl clients) (absent : fd ∉ clients) (object : Nat) :
    Matches (ssl.new fd true object) (fd :: clients) := by
  refine ⟨?_, ?_, ?_⟩
  · intro other
    rw [Ssl.new, KeyedList.get?_set, List.mem_cons, matched.owned]
    by_cases here : fd = other
    · simp [here]
    · simp [here, Ne.symm here]
  · intro other
    rw [Ssl.new, KeyedList.get?_set]
    split
    · simp
    · exact matched.sound other
  · intro one member
    simp only [Ssl.new, if_true, List.mem_cons] at member ⊢
    rcases member with rfl | old
    · exact ⟨fd, KeyedList.get?_set_self ..⟩
    · obtain ⟨other, found⟩ := matched.used one old
      refine ⟨other, ?_⟩
      have apart : fd ≠ other := by
        rintro rfl
        exact absent ((matched.owned fd).mpr ⟨one, found⟩)
      rwa [KeyedList.get?_set_of_ne _ apart]

theorem Matches.closeClient (matched : Matches ssl clients) (distinct : Distinct ssl bound)
    (nodup : clients.Nodup) (member : fd ∈ clients) (closes : ssl.closeClient fd = some next) :
    Matches next (clients.erase fd) := by
  obtain ⟨freed, stored⟩ := (matched.owned fd).mp member
  rw [Ssl.closeClient, stored, Option.getD_some, Ssl.free,
    if_pos (distinct.present fd freed stored), Option.map_some, Option.some.injEq] at closes
  subst closes
  refine ⟨?_, ?_, ?_⟩
  · intro other
    rw [KeyedList.get?_erase, nodup.mem_erase_iff, matched.owned]
    by_cases here : fd = other
    · simp [here]
    · simp [here, Ne.symm here]
  · intro other
    rw [KeyedList.get?_erase]
    split
    · simp
    · exact matched.sound other
  · intro object left
    obtain ⟨different, old⟩ := distinct.nodup.mem_erase_iff.mp left
    obtain ⟨other, found⟩ := matched.used object old
    refine ⟨other, ?_⟩
    have apart : fd ≠ other := by
      rintro rfl
      rw [stored, Option.some.injEq, Option.some.injEq] at found
      exact different found.symm
    rw [KeyedList.get?_erase, if_neg apart]
    exact found

/-- A connection that is given up in `accept_continuation`, or right after it. -/
theorem Matches.reject (matched : Matches ssl clients) (distinct : Distinct ssl bound)
    (nodup : clients.Nodup) (absent : fd ∉ clients) (created : Bool)
    (closes : (ssl.new fd created bound).closeClient fd = some next) : Matches next clients := by
  cases created with
  | true =>
      have opened := matched.new absent bound
      have closed := opened.closeClient (distinct.new fd true)
        (List.nodup_cons.mpr ⟨absent, nodup⟩) List.mem_cons_self closes
      rwa [List.erase_cons_head] at closed
  | false =>
      simp only [Ssl.closeClient, Ssl.new, KeyedList.get?_set_self, Option.getD_some, Ssl.free,
        Option.map_some, Option.some.injEq, Bool.false_eq_true, if_false] at closes
      subst closes
      have same (other : Int) : KeyedList.get? (KeyedList.erase
          (KeyedList.set ssl.clientSsl fd none) fd) other = KeyedList.get? ssl.clientSsl other := by
        rw [KeyedList.get?_erase]
        split
        · rename_i here
          rw [← here, matched.get?_eq_none absent]
        · rename_i apart
          exact KeyedList.get?_set_of_ne _ apart _
      refine ⟨?_, ?_, ?_⟩
      · intro other
        rw [same]
        exact matched.owned other
      · intro other
        rw [same]
        exact matched.sound other
      · intro object member
        obtain ⟨other, found⟩ := matched.used object member
        exact ⟨other, (same other).trans found⟩

/-- The objects of the clients of a thread. -/
def Secured (handshake : Nat → Handshake) (state : ThreadState) : Prop :=
  ∃ ssl, objects handshake state.log = some ssl ∧ Matches ssl (openClients state.log)

/-- What `accept_continuation` answers is what becomes of the connection. -/
def Shaken (handshake : Nat → Handshake) (state : ThreadState) (accepted : List Accepted) : Prop :=
  ∀ index one, accepted[index]? = some one →
    acceptContinuation (handshake (accepts state.log + index)) = some one.rejected

variable {config : Config} {handshake : Nat → Handshake} {state after : ThreadState}
  {results : Results}

theorem Secured.of_log (secured : Secured handshake state) (log : after.log = state.log) :
    Secured handshake after := by
  rw [Secured, log]
  exact secured

theorem secured_start (config : Config) : Secured handshake (ThreadState.start config) :=
  ⟨_, rfl, by constructor <;> simp [openClients, ThreadState.start]⟩

theorem Secured.close (secured : Secured handshake state) (sound : Sound config state)
    (member : fd ∈ openClients state.log)
    (log : after.log = .disconnected fd :: .closed fd :: state.log) : Secured handshake after := by
  obtain ⟨ssl, made, matched⟩ := secured
  obtain ⟨_, same, distinct⟩ := exists_objects handshake state.log
  cases made.symm.trans same
  obtain ⟨next, closes, -⟩ := distinct.closeClient fd
  refine ⟨next, ?_, ?_⟩
  · rw [log]
    exact Option.bind_eq_some_iff.mpr ⟨ssl, made, closes⟩
  · rw [log]
    exact matched.closeClient distinct sound.distinct member closes

theorem Secured.closeOnError (secured : Secured handshake state) (sound : Sound config state)
    (tracked : fd ∈ KeyedList.keys state.clientToTimer) :
    Secured handshake (state.closeOnError config results fd) :=
  secured.close sound ((sound.clients fd).mp tracked) rfl

theorem Secured.handleClient (secured : Secured handshake state) (sound : Sound config state)
    (tracked : fd ∈ KeyedList.keys state.clientToTimer) :
    Secured handshake (state.handleClient config results fd) := by
  have known := KeyedList.contains_iff.mpr tracked
  unfold ThreadState.handleClient
  dsimp only
  rw [if_pos known]
  split_ifs
  · exact secured
  · exact secured.close sound ((sound.clients fd).mp tracked) rfl
  · exact secured
  · exact secured.of_log (by unfold ThreadState.rearm; split <;> rfl)

theorem Secured.expire (secured : Secured handshake state) (sound : Sound config state)
    {timer client : Int} (tracked : KeyedList.get? state.timerToClient timer = some client)
    (closes : results.closes timer = true) :
    Secured handshake (ThreadState.expire config results state timer) := by
  have found := (sound.inverse client timer).mpr tracked
  have member := (sound.clients client).mp (tracked_iff.mpr ⟨timer, found⟩)
  unfold ThreadState.expire
  rw [tracked, if_pos closes]
  exact secured.close sound member rfl

theorem Secured.expireAll (secured : Secured handshake state) (sound : Sound config state)
    {timers : List Int} (distinct : timers.Nodup)
    (tracked : ∀ timer ∈ timers, KeyedList.get? state.timerToClient timer ≠ none)
    (closes : ∀ timer ∈ timers, results.closes timer = true) :
    Secured handshake (timers.foldl (ThreadState.expire config results) state) := by
  induction timers generalizing state with
  | nil => exact secured
  | cons timer rest ih =>
      rw [List.nodup_cons] at distinct
      obtain ⟨client, found⟩ := Option.ne_none_iff_exists'.mp (tracked timer List.mem_cons_self)
      have now := closes timer List.mem_cons_self
      rw [List.foldl_cons]
      apply ih (secured.expire sound found now) (sound.expire results found now) distinct.2
        (tracked_expire config results distinct.1 tracked)
      intro other member
      exact closes other (List.mem_cons_of_mem _ member)

theorem Secured.handleTimeouts (secured : Secured handshake state) (sound : Sound config state)
    (closes : ∀ timers, results.expired = some timers →
      ∀ timer ∈ timers, results.closes timer = true)
    (handles : state.handleTimeouts config results = some after) : Secured handshake after := by
  unfold ThreadState.handleTimeouts at handles
  cases expired : results.expired with
  | none =>
      simp only [expired] at handles
      cases handles
      exact secured
  | some timers =>
      simp only [expired] at handles
      obtain ⟨taken, takes, rfl⟩ := Option.map_eq_some_iff.mp handles
      obtain ⟨kept, distinct, tracked⟩ := sound.takeExpired takes
      have log : taken.log = state.log := by
        unfold ThreadState.takeExpired at takes
        rw [Option.ite_none_right_eq_some] at takes
        cases takes.2
        rfl
      have expires := (secured.of_log log).expireAll kept distinct tracked (closes timers expired)
      exact expires.of_log (by unfold ThreadState.rearm; split <;> rfl)

theorem created_of_accepts {made : Handshake} (continues : acceptContinuation made = some false) :
    made.created = true := by
  rw [acceptContinuation] at continues
  split at continues
  · cases continues
  · rename_i created
    simpa using created

theorem log_startTimer {accepted : Accepted} (starts : state.startTimer accepted = some after) :
    after.log = state.log := by
  unfold ThreadState.startTimer at starts
  split at starts
  · cases starts
    rfl
  · split at starts
    · cases starts
    · dsimp only at starts
      split at starts
      · cases starts
        rfl
      · cases starts
        rfl

theorem Secured.accept (secured : Secured handshake state) (sound : Sound config state)
    {accepted : Accepted} {goesOn : Bool}
    (shaken : acceptContinuation (handshake (accepts state.log)) = some accepted.rejected)
    (accepting : state.accept accepted = some (goesOn, after)) :
    Secured handshake after ∧ (goesOn = true → accepts after.log = accepts state.log + 1) := by
  obtain ⟨ssl, made, matched⟩ := secured
  obtain ⟨_, same, distinct⟩ := exists_objects handshake state.log
  cases made.symm.trans same
  unfold ThreadState.accept at accepting
  dsimp only at accepting
  split at accepting
  · cases accepting
  · rename_i fresh
    have absent := (sound.fresh (by simpa using fresh : state.isOpen accepted.fd = false)).1
    split at accepting
    · cases accepting
      refine ⟨?_, fun more => by cases more⟩
      obtain ⟨next, closes, -⟩ :=
        (distinct.new accepted.fd (handshake (accepts state.log)).created).closeClient accepted.fd
      refine ⟨next, ?_, ?_⟩
      · refine Option.bind_eq_some_iff.mpr ⟨_, ?_, closes⟩
        exact Option.map_eq_some_iff.mpr ⟨ssl, made, rfl⟩
      · have closed := matched.reject distinct sound.distinct absent _ closes
        change Matches next (List.erase (accepted.fd :: openClients state.log) accepted.fd)
        rwa [List.erase_cons_head]
    · rename_i keeps
      rw [not_or, Bool.not_eq_true] at keeps
      obtain ⟨timed, starts, equal⟩ := Option.map_eq_some_iff.mp accepting
      cases equal
      have log : timed.log = .accepted accepted.fd :: state.log := log_startTimer starts
      let opened := ssl.new accepted.fd (handshake (accepts state.log)).created (accepts state.log)
      refine ⟨⟨opened, ?_, ?_⟩, fun _ => ?_⟩
      · dsimp only
        rw [log]
        exact Option.map_eq_some_iff.mpr ⟨ssl, made, rfl⟩
      · dsimp only
        rw [keeps.1] at shaken
        have created := created_of_accepts shaken
        rw [log]
        simp only [opened, created]
        exact matched.new absent _
      · dsimp only
        rw [log]
        exact List.countP_cons_of_pos rfl

theorem Secured.acceptLoop (secured : Secured handshake state) (sound : Sound config state)
    {accepted : List Accepted} (timed : ∀ one ∈ accepted, one.Timed)
    (shaken : Shaken handshake state accepted)
    (loops : ThreadState.acceptLoop config accepted state = some after) :
    Secured handshake after := by
  induction accepted generalizing state with
  | nil =>
      cases loops
      exact secured
  | cons one rest ih =>
      unfold ThreadState.acceptLoop at loops
      split at loops
      · rename_i below
        obtain ⟨⟨goesOn, next⟩, accepting, later⟩ := Option.bind_eq_some_iff.mp loops
        obtain ⟨kept, count⟩ := secured.accept sound (shaken 0 one rfl) accepting
        dsimp only at later
        split at later
        · rename_i more
          have others : Shaken handshake next rest := by
            intro index other found
            rw [count more, Nat.add_assoc, Nat.add_comm 1]
            exact shaken (index + 1) other found
          exact ih kept (sound.accept below (timed one List.mem_cons_self) accepting)
            (fun other member => timed other (List.mem_cons_of_mem _ member)) others later
        · cases later
          exact kept
      · cases loops
        exact secured

theorem Secured.handleServer (secured : Secured handshake state) (sound : Sound config state)
    (timed : ∀ one ∈ results.accepted, one.Timed)
    (shaken : Shaken handshake state results.accepted)
    (handles : state.handleServer config results = some after) : Secured handshake after := by
  unfold ThreadState.handleServer at handles
  split at handles
  · obtain ⟨next, loops, rfl⟩ := Option.map_eq_some_iff.mp handles
    have kept := secured.acceptLoop sound timed shaken loops
    split
    · exact kept.of_log rfl
    · exact kept
  · cases handles
    exact secured

theorem Secured.handleEvent (secured : Secured handshake state) (sound : Sound config state)
    {signal : Signal} (orderly : OrderlyEvent config state results fd signal)
    (shaken : Shaken handshake state results.accepted)
    (handles : state.handleEvent config results fd signal = some after) :
    Secured handshake after := by
  unfold ThreadState.handleEvent at handles
  split_ifs at handles with error timeout broadcast server
  · cases handles
    apply secured.closeOnError sound
    apply orderly.tracked
    intro special
    rw [orderly.sound special] at error
    cases error
  · exact secured.handleTimeouts sound (orderly.closes timeout) handles
  · cases handles
    exact secured.of_log (by unfold ThreadState.rearm; split <;> rfl)
  · exact secured.handleServer sound (orderly.timed server) shaken handles
  · cases handles
    apply secured.handleClient sound
    apply orderly.tracked
    rintro (isServer | isTimeout | isBroadcast)
    · exact server isServer
    · exact timeout isTimeout
    · exact broadcast isBroadcast

/-- An orderly action, whose connections are accepted as their handshakes go. -/
def Secure (handshake : Nat → Handshake) (config : Config) (state : ThreadState)
    (action : ThreadAction) : Prop :=
  Orderly config state action ∧
    ∀ results, action = .handle results → Shaken handshake state results.accepted

theorem Secured.step (secured : Secured handshake state) (sound : Sound config state)
    {action : ThreadAction} (secure : Secure handshake config state action)
    (steps : stepEvents config state action = some after) : Secured handshake after := by
  cases eventStep_of_stepEvents steps with
  | wait idle distinct isArmed => exact secured.of_log rfl
  | @handle results fd signal rest next batch handles =>
      have event := secure.1 fd signal rest batch
      have popped : Secured handshake { state with pending := rest } := secured.of_log rfl
      exact popped.handleEvent (sound.pop rest)
        ⟨event.tracked, event.sound, event.closes, event.timed⟩ (secure.2 results rfl) handles

/-- What the destructor leaves are the objects that are not in the table. -/
theorem exists_destroyed {entries : List (Int × Option Nat)} {live : List Nat}
    (keys : (KeyedList.keys entries).Nodup) (nodup : live.Nodup)
    (once : ∀ fd other object, KeyedList.get? entries fd = some (some object) →
      KeyedList.get? entries other = some (some object) → fd = other)
    (present : ∀ fd object, KeyedList.get? entries fd = some (some object) → object ∈ live) :
    ∃ left, entries.foldlM (fun live entry => Ssl.free live entry.2) live = some left ∧
      ∀ object ∈ left, object ∈ live ∧ ∀ fd, KeyedList.get? entries fd ≠ some (some object) := by
  induction entries generalizing live with
  | nil => exact ⟨live, rfl, fun object member => ⟨member, fun fd => by simp⟩⟩
  | cons entry rest ih =>
      obtain ⟨key, pointer⟩ := entry
      simp only [KeyedList.keys_cons, List.nodup_cons] at keys
      have later {fd : Int} {found : Option Nat} (inside : KeyedList.get? rest fd = some found) :
          KeyedList.get? ((key, pointer) :: rest) fd = some found := by
        rw [KeyedList.get?_cons, if_neg]
        · exact inside
        · rintro rfl
          exact keys.1 (KeyedList.mem_keys_of_get? inside)
      have here : KeyedList.get? ((key, pointer) :: rest) key = some pointer := if_pos rfl
      have onceLater := fun fd other object first second =>
        once fd other object (later first) (later second)
      have outside {object : Nat} (other : pointer ≠ some object)
          (absent : ∀ fd, KeyedList.get? rest fd ≠ some (some object)) (fd : Int) :
          KeyedList.get? ((key, pointer) :: rest) fd ≠ some (some object) := by
        rw [KeyedList.get?_cons]
        split
        · simpa using other
        · exact absent fd
      rw [List.foldlM_cons]
      cases pointer with
      | none =>
          obtain ⟨left, frees, gone⟩ := ih keys.2 nodup onceLater
            fun fd object inside => present fd object (later inside)
          refine ⟨left, frees, fun object member => ?_⟩
          obtain ⟨stays, absent⟩ := gone object member
          exact ⟨stays, outside (by simp) absent⟩
      | some freed =>
          have presentLater : ∀ fd object, KeyedList.get? rest fd = some (some object) →
              object ∈ live.erase freed := by
            intro fd object inside
            refine (List.mem_erase_of_ne ?_).mpr (present fd object (later inside))
            rintro rfl
            have same := once key fd object here (later inside)
            exact keys.1 (same ▸ KeyedList.mem_keys_of_get? inside)
          obtain ⟨left, frees, gone⟩ := ih keys.2 (nodup.erase freed) onceLater presentLater
          refine ⟨left, ?_, fun object member => ?_⟩
          · rw [Ssl.free, if_pos (present key freed here)]
            exact frees
          · obtain ⟨stays, absent⟩ := gone object member
            obtain ⟨different, old⟩ := nodup.mem_erase_iff.mp stays
            exact ⟨old, outside (by simpa using Ne.symm different) absent⟩

/-- As many objects exist as there are clients. -/
theorem Matches.length_live (matched : Matches ssl clients) (distinct : Distinct ssl bound)
    (nodup : clients.Nodup) : ssl.live.length = clients.length := by
  let object (fd : Int) : Nat := ((KeyedList.get? ssl.clientSsl fd).join).getD 0
  have found {fd : Int} (member : fd ∈ clients) :
      KeyedList.get? ssl.clientSsl fd = some (some (object fd)) := by
    obtain ⟨one, stored⟩ := (matched.owned fd).mp member
    simp [object, stored]
  have once : (clients.map object).Nodup := by
    apply nodup.map_on
    intro fd member other also same
    apply distinct.once fd other (object fd) (found member)
    rw [same]
    exact found also
  have perm : ssl.live.Perm (clients.map object) := by
    rw [List.perm_ext_iff_of_nodup distinct.nodup once]
    intro one
    rw [List.mem_map]
    constructor
    · intro member
      obtain ⟨fd, stored⟩ := matched.used one member
      exact ⟨fd, (matched.owned fd).mpr ⟨one, stored⟩, by simp [object, stored]⟩
    · rintro ⟨fd, member, rfl⟩
      exact distinct.present fd _ (found member)
  rw [perm.length_eq, List.length_map]

/-- In every state of an orderly run, the clients are those with an object that
exists, no other object does, and the destructor leaves none. -/
theorem objects_of_run {actions : List ThreadAction}
    (run : Transitions.Run (stepEvents config) (Secure handshake config) (ThreadState.start config)
      actions state) :
    ∃ ssl, objects handshake state.log = some ssl ∧
      (∀ client, client ∈ state.clients ↔
        ∃ object ∈ ssl.live, KeyedList.get? ssl.clientSsl client = some (some object)) ∧
      ssl.live.length = state.numConnections.toNat ∧ ssl.destroy = some [] := by
  have invariant : Sound config state ∧ Secured handshake state := by
    apply run.invariant _ ⟨sound_start config, secured_start config⟩
    rintro first action next ⟨sound, secured⟩ secure steps
    exact ⟨sound.stepEvents secure.1 steps, secured.step sound secure steps⟩
  obtain ⟨sound, ssl, made, matched⟩ := invariant
  obtain ⟨_, same, distinct⟩ := exists_objects handshake state.log
  cases made.symm.trans same
  refine ⟨ssl, made, ?_, ?_, ?_⟩
  · intro client
    rw [ThreadState.clients, sound.clients, matched.owned]
    constructor
    · rintro ⟨object, stored⟩
      exact ⟨object, distinct.present client object stored, stored⟩
    · rintro ⟨object, -, stored⟩
      exact ⟨object, stored⟩
  · rw [sound.count, matched.length_live distinct sound.distinct]
  · obtain ⟨left, frees, gone⟩ :=
      exists_destroyed distinct.keys distinct.nodup distinct.once distinct.present
    have none : left = [] := by
      apply List.eq_nil_iff_forall_not_mem.mpr
      intro object member
      obtain ⟨old, absent⟩ := gone object member
      obtain ⟨fd, stored⟩ := matched.used object old
      exact absent fd stored
    rw [Ssl.destroy, frees, none]

end OneThread

namespace Sample

open EpollServer.Sample

/-- The second connection says no TLS. -/
def handshake : Nat → Handshake
  | 0 => ⟨true, true, [(.wantRead, 3), (.none, 7)]⟩
  | _ => ⟨true, true, [(.other, 2)]⟩

def twoClients : Results :=
  { calm with accepted :=
      [⟨10, false, true, some 11, true, true⟩, ⟨12, true, true, none, true, true⟩] }

theorem secure_twoClients {state : ThreadState} {rest : List (Int × Signal)}
    (pending : state.pending = (3, .readable) :: rest) (first : accepts state.log = 0) :
    Secure handshake config state (.handle twoClients) := by
  refine ⟨?_, ?_⟩
  · intro fd signal others batch
    cases pending.symm.trans batch
    refine ⟨fun ordinary => absurd (.inl rfl) ordinary, fun _ => rfl, ?_, ?_⟩
    · intro timeout
      cases timeout
    · intro _ accepted member kept
      simp only [twoClients, List.mem_cons, List.not_mem_nil, or_false] at member
      rcases member with rfl | rfl
      · exact fun _ => ⟨Option.some_ne_none 11, rfl⟩
      · cases kept
  · intro results same index one found
    cases same
    rw [first, Nat.zero_add]
    match index, found with
    | 0, found =>
        cases found
        rfl
    | 1, found =>
        cases found
        rfl

end Sample

theorem objects_of_run_rejected :
    ∃ (state : ThreadState) (ssl : Ssl),
      state.log = [.closed 12, .accepted 12, .accepted 10] ∧
      objects Sample.handshake state.log = some ssl ∧ ssl.live = [0] ∧
      (∀ client, client ∈ state.clients ↔
        ∃ object ∈ ssl.live, KeyedList.get? ssl.clientSsl client = some (some object)) ∧
      ssl.live.length = state.numConnections.toNat ∧ ssl.destroy = some [] := by
  obtain ⟨state, run, log⟩ : ∃ state, Transitions.Run (stepEvents EpollServer.Sample.config)
      (Secure Sample.handshake EpollServer.Sample.config)
      (ThreadState.start EpollServer.Sample.config)
      [.wait [(3, .readable)], .handle Sample.twoClients] state ∧
      state.log = [.closed 12, .accepted 12, .accepted 10] := by
    refine ⟨_, .cons ⟨trivial, fun _ same => by cases same⟩ rfl (.cons ?_ rfl (.nil _)), rfl⟩
    exact Sample.secure_twoClients rfl rfl
  obtain ⟨ssl, made, rest⟩ := objects_of_run run
  refine ⟨state, ssl, log, made, ?_, rest⟩
  rw [log] at made
  cases made
  rfl

end TlsEpollServer

end Libjaypea
