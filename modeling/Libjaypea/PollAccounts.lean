import Libjaypea.PollServer

/-!
# The slots of the poll server

Every descriptor that is open is in one slot or was turned away from a full
table, no descriptor is closed that is not open, and the table is as long as the
most slots that were ever in use together.
-/

namespace Libjaypea

namespace PollServer

open State (findSlot put held)
open Transitions

section Slots

variable {clients : List Int} {fd : Int}

/-- The first slot that was given up, or else the next one. -/
theorem findSlot_eq_some {slots next found : Nat} (within : next ≤ clients.length)
    (finds : findSlot clients slots next = some found) :
    next ≤ found ∧ found < next + slots ∧
      (clients[found]? = some (-1) ∨
        found = clients.length ∧ ∀ slot, next ≤ slot → clients[slot]? ≠ some (-1)) := by
  induction slots generalizing next with
  | zero => cases finds
  | succ slots ih =>
      rw [findSlot] at finds
      split_ifs at finds with free behind
      · cases finds
        exact ⟨Nat.le_refl _, by omega, .inl free⟩
      · cases finds
        refine ⟨Nat.le_refl _, by omega, .inr ⟨behind, fun slot after => ?_⟩⟩
        rw [List.getElem?_eq_none (by omega)]
        exact (Option.some_ne_none _).symm
      · obtain ⟨after, inside, outcome⟩ := ih (by omega) finds
        refine ⟨by omega, by omega, outcome.imp_right ?_⟩
        rintro ⟨last, none⟩
        refine ⟨last, fun slot from_next => ?_⟩
        by_cases here : slot = next
        · rw [here]
          exact free
        · exact none slot (by omega)

theorem findSlot_eq_none {slots next : Nat} (within : next ≤ clients.length)
    (finds : findSlot clients slots next = none) : next + slots ≤ clients.length := by
  induction slots generalizing next with
  | zero => exact within
  | succ slots ih =>
      rw [findSlot] at finds
      split_ifs at finds with free behind
      have later := ih (by omega) finds
      omega

theorem getElem?_put {next : Nat} (within : next ≤ clients.length) (slot : Nat) :
    (put clients next fd)[slot]? = if slot = next then some fd else clients[slot]? := by
  unfold put
  split
  · rename_i last
    subst last
    by_cases here : slot = clients.length
    · rw [if_pos here, here, List.getElem?_concat_length]
    · rw [if_neg here]
      by_cases inside : slot < clients.length
      · rw [List.getElem?_append_left inside]
      · have outside : clients.length + 1 ≤ slot := by omega
        rw [List.getElem?_eq_none (Nat.le_of_succ_le outside), List.getElem?_eq_none]
        rwa [List.length_append, List.length_singleton]
  · rename_i notLast
    rw [List.getElem?_set]
    by_cases here : next = slot
    · subst here
      rw [if_pos rfl, if_pos rfl, if_pos (by omega)]
    · rw [if_neg here, if_neg (Ne.symm here)]

theorem length_put (clients : List Int) (next : Nat) (fd : Int) :
    (put clients next fd).length =
      if next = clients.length then clients.length + 1 else clients.length := by
  unfold put
  split
  · rw [List.length_append, List.length_singleton]
  · rw [List.length_set]

theorem held_le_length (clients : List Int) : held clients ≤ clients.length :=
  List.countP_le_length

/-- All slots are in use when none was given up. -/
theorem held_eq_length (used : ∀ slot : Nat, clients[slot]? ≠ some (-1)) :
    held clients = clients.length := by
  rw [held, List.countP_eq_length]
  intro other member
  obtain ⟨slot, there⟩ := List.mem_iff_getElem?.mp member
  rw [decide_eq_true_eq]
  rintro rfl
  exact used slot there

/-- A slot that was given up, or the next one if none was. -/
def Free (clients : List Int) (slot : Nat) : Prop :=
  clients[slot]? = some (-1) ∨
    slot = clients.length ∧ ∀ other : Nat, clients[other]? ≠ some (-1)

theorem free_of_findSlot {slots slot : Nat} (finds : findSlot clients slots 0 = some slot) :
    Free clients slot ∧ slot < slots := by
  obtain ⟨_, inside, free⟩ := findSlot_eq_some (Nat.zero_le _) finds
  exact ⟨free.imp_right fun last => ⟨last.1, fun other => last.2 other (Nat.zero_le other)⟩,
    by omega⟩

theorem Free.le_length {slot : Nat} (free : Free clients slot) : slot ≤ clients.length := by
  rcases free with hole | ⟨last, _⟩
  · exact Nat.le_of_lt (List.getElem?_eq_some_iff.mp hole).1
  · exact Nat.le_of_eq last

theorem Free.ne_some {slot : Nat} (free : Free clients slot) (real : fd ≠ -1) :
    clients[slot]? ≠ some fd := by
  intro there
  rcases free with hole | ⟨last, _⟩
  · rw [hole] at there
    exact real (Option.some_inj.mp there).symm
  · rw [last, List.getElem?_length] at there
    cases there

/-- The table only grows when all its slots are in use. -/
theorem length_put_of_free {slot : Nat} (real : fd ≠ -1) (free : Free clients slot) :
    (put clients slot fd).length = max clients.length (held (put clients slot fd)) := by
  have within := free.le_length
  have length := length_put clients slot fd
  have isHeld := held_le_length (put clients slot fd)
  rcases free with hole | ⟨last, none⟩
  · have inside := (List.getElem?_eq_some_iff.mp hole).1
    rw [if_neg (by omega)] at length
    rw [length]
    exact (Nat.max_eq_left (by omega)).symm
  · have used : ∀ other : Nat, (put clients slot fd)[other]? ≠ some (-1) := by
      intro other
      rw [getElem?_put within]
      split
      · intro same
        exact real (Option.some_inj.mp same)
      · exact none other
    rw [if_pos last] at length
    rw [held_eq_length used]
    exact (Nat.max_eq_right (by omega)).symm

end Slots

/-- Descriptors in use, slots and calls of `close` while the server runs. -/
structure Accounts (serverFd : Int) (state : State) : Prop where
  listening : 0 ≤ serverFd
  size : state.clients.length = state.peak
  bounded : state.clients.length ≤ connectionsLimit
  server : state.clients[0]? = some serverFd
  distinct : ∀ (slot other : Nat) fd, state.clients[slot]? = some fd → state.clients[other]? = some fd →
    fd ≠ -1 → slot = other
  account : ∀ fd, state.isOpen fd = true ↔
    (fd ≠ -1 ∧ ∃ slot : Nat, state.clients[slot]? = some fd) ∨ fd ∈ state.turnedAway
  apart : ∀ fd ∈ state.turnedAway, ∀ slot : Nat, state.clients[slot]? ≠ some fd
  natural : ∀ fd, state.isOpen fd = true → 0 ≤ fd
  full : state.turnedAway ≠ [] → state.clients.length = connectionsLimit
  closes : ∀ call ∈ state.closed, call.2 = true

/-- The slots that are still to be looked at are in use. -/
structure Scanning (state : State) : Prop where
  nodup : state.pending.Nodup
  used : ∀ slot ∈ state.pending, ∃ fd, state.clients[slot]? = some fd ∧ 0 ≤ fd

section Accept

variable {serverFd fd : Int} {state next : State}

theorem getElem?_start {slot : Nat} :
    (State.start serverFd).clients[slot]? = some fd ↔ slot = 0 ∧ fd = serverFd := by
  cases slot with
  | zero => simp [State.start, eq_comm]
  | succ slot => simp [State.start]

theorem accounts_start (listening : 0 ≤ serverFd) : Accounts serverFd (.start serverFd) where
  listening := listening
  size := rfl
  bounded := Nat.succ_le_succ (Nat.zero_le 2047)
  server := rfl
  distinct slot other fd here there _ := by
    rw [(getElem?_start.mp here).1, (getElem?_start.mp there).1]
  account fd := by
    simp only [getElem?_start]
    constructor
    · intro isOpen
      have same : fd = serverFd := of_decide_eq_true isOpen
      exact .inl ⟨by omega, 0, rfl, same⟩
    · rintro (⟨_, _, _, same⟩ | turned)
      · exact decide_eq_true same
      · exact absurd turned List.not_mem_nil
  apart fd member := absurd member List.not_mem_nil
  natural fd isOpen := by
    have same : fd = serverFd := of_decide_eq_true isOpen
    rw [same]
    exact listening
  full turned := absurd rfl turned
  closes call member := absurd member List.not_mem_nil

theorem Accounts.unused (accounts : Accounts serverFd state) (natural : 0 ≤ fd)
    (closed : state.isOpen fd = false) (slot : Nat) : state.clients[slot]? ≠ some fd := by
  intro there
  have isOpen := (accounts.account fd).mpr (.inl ⟨by omega, slot, there⟩)
  rw [closed] at isOpen
  cases isOpen

theorem Accounts.notMem_turnedAway (accounts : Accounts serverFd state)
    (closed : state.isOpen fd = false) : fd ∉ state.turnedAway := by
  intro member
  have isOpen := (accounts.account fd).mpr (.inr member)
  rw [closed] at isOpen
  cases isOpen

theorem Accounts.natural_update (accounts : Accounts serverFd state) (natural : 0 ≤ fd)
    (value : Bool) (other : Int) (isOpen : Function.update state.isOpen fd value other = true) :
    0 ≤ other := by
  by_cases same : other = fd
  · rw [same]
    exact natural
  · rw [Function.update_of_ne same] at isOpen
    exact accounts.natural other isOpen

section Put

variable {slot : Nat}

/-- The server never leaves its slot. -/
theorem Accounts.ne_zero_of_free (accounts : Accounts serverFd state)
    (free : Free state.clients slot) : slot ≠ 0 := by
  have listening := accounts.listening
  have server := accounts.server
  rintro rfl
  rcases free with hole | ⟨last, _⟩
  · rw [server] at hole
    cases hole
    omega
  · rw [List.getElem?_eq_none (by omega)] at server
    cases server

theorem Accounts.distinct_put (accounts : Accounts serverFd state) (natural : 0 ≤ fd)
    (closed : state.isOpen fd = false) (free : Free state.clients slot)
    (first second : Nat) (found : Int)
    (here : (State.put state.clients slot fd)[first]? = some found)
    (there : (State.put state.clients slot fd)[second]? = some found) (real : found ≠ -1) :
    first = second := by
  rw [getElem?_put free.le_length] at here there
  split at here
  · rename_i isFirst
    split at there
    · rename_i isSecond
      rw [isFirst, isSecond]
    · cases here
      exact absurd there (accounts.unused natural closed second)
  · split at there
    · cases there
      exact absurd here (accounts.unused natural closed first)
    · exact accounts.distinct first second found here there real

theorem Accounts.account_put (accounts : Accounts serverFd state) (natural : 0 ≤ fd)
    (free : Free state.clients slot) (other : Int) :
    Function.update state.isOpen fd true other = true ↔
      (other ≠ -1 ∧ ∃ found : Nat, (State.put state.clients slot fd)[found]? = some other) ∨
        other ∈ state.turnedAway := by
  by_cases same : other = fd
  · subst same
    rw [Function.update_self]
    refine iff_of_true rfl (.inl ⟨by omega, slot, ?_⟩)
    rw [getElem?_put free.le_length, if_pos rfl]
  · rw [Function.update_of_ne same, accounts.account]
    apply or_congr_left
    apply and_congr_right
    intro real
    apply exists_congr
    intro found
    rw [getElem?_put free.le_length]
    split
    · rename_i here
      rw [here]
      apply iff_of_false (free.ne_some real)
      intro taken
      exact same (Option.some_inj.mp taken).symm
    · exact Iff.rfl

theorem Accounts.apart_put (accounts : Accounts serverFd state)
    (closed : state.isOpen fd = false) (free : Free state.clients slot) (other : Int)
    (turned : other ∈ state.turnedAway) (found : Nat) :
    (State.put state.clients slot fd)[found]? ≠ some other := by
  rw [getElem?_put free.le_length]
  split
  · intro same
    cases same
    exact accounts.notMem_turnedAway closed turned
  · exact accounts.apart other turned found

end Put

/-- A client that is put into a slot which is free. -/
theorem Accounts.put (accounts : Accounts serverFd state) (natural : 0 ≤ fd)
    (closed : state.isOpen fd = false) {next : Nat} (few : next < connectionsLimit)
    (free : Free state.clients next) :
    Accounts serverFd { state with
      isOpen := Function.update state.isOpen fd true
      clients := State.put state.clients next fd
      peak := max state.peak (held (State.put state.clients next fd))
      received := Function.update state.received fd []
      sent := Function.update state.sent fd [] } where
  listening := accounts.listening
  size := by
    dsimp only
    rw [← accounts.size]
    exact length_put_of_free (by omega) free
  bounded := by
    have bounded := accounts.bounded
    have within := free.le_length
    dsimp only
    rw [length_put]
    split
    · omega
    · exact bounded
  server := by
    dsimp only
    rw [getElem?_put free.le_length, if_neg (accounts.ne_zero_of_free free).symm]
    exact accounts.server
  distinct := accounts.distinct_put natural closed free
  account := accounts.account_put natural free
  apart := accounts.apart_put closed free
  natural := accounts.natural_update natural true
  full turned := by
    have full := accounts.full turned
    dsimp only
    rw [length_put, if_neg (by omega)]
    exact full
  closes := accounts.closes

theorem Accounts.turnAway (accounts : Accounts serverFd state) (natural : 0 ≤ fd)
    (closed : state.isOpen fd = false) (long : connectionsLimit ≤ state.clients.length) :
    Accounts serverFd { state with
      isOpen := Function.update state.isOpen fd true
      turnedAway := fd :: state.turnedAway } := by
  refine ⟨accounts.listening, accounts.size, accounts.bounded, accounts.server, accounts.distinct,
    ?_, ?_, accounts.natural_update natural true, ?_, accounts.closes⟩
  · intro other
    dsimp only
    by_cases same : other = fd
    · rw [same, Function.update_self]
      exact iff_of_true rfl (.inr List.mem_cons_self)
    · rw [Function.update_of_ne same, accounts.account, List.mem_cons]
      simp [same]
  · intro other member
    rcases List.mem_cons.mp member with rfl | old
    · exact accounts.unused natural closed
    · exact accounts.apart other old
  · intro _
    exact Nat.le_antisymm accounts.bounded long

theorem Accounts.accept (accounts : Accounts serverFd state) (natural : 0 ≤ fd)
    (closed : state.isOpen fd = false) : Accounts serverFd (state.accept fd) := by
  unfold State.accept
  dsimp only
  split
  · rename_i none
    have long := findSlot_eq_none (Nat.zero_le _) none
    exact accounts.turnAway natural closed (by omega)
  · rename_i next found
    obtain ⟨free, few⟩ := free_of_findSlot found
    exact accounts.put natural closed few free

end Accept

/-- What the accounts are about is the same in another state. -/
theorem Accounts.of_same {serverFd : Int} {state other : State} (accounts : Accounts serverFd state)
    (clients : other.clients = state.clients) (isOpen : other.isOpen = state.isOpen)
    (turnedAway : other.turnedAway = state.turnedAway) (closed : other.closed = state.closed)
    (peak : other.peak = state.peak) : Accounts serverFd other := by
  obtain ⟨listening, size, bounded, server, distinct, account, apart, natural, full, closes⟩ :=
    accounts
  rw [← clients] at size bounded server distinct account apart full
  rw [← peak] at size
  rw [← isOpen] at account natural
  rw [← turnedAway] at account apart full
  rw [← closed] at closes
  exact ⟨listening, size, bounded, server, distinct, account, apart, natural, full, closes⟩

section Serve

variable {serverFd fd : Int} {state next : State} {slot : Nat}

theorem exists_transfers (transfers : List Transfer) (fd : Int) (state : State) :
    ∃ received sent, transfers.foldl (State.transfer fd) state =
      { state with received := received, sent := sent } := by
  induction transfers generalizing state with
  | nil => exact ⟨state.received, state.sent, rfl⟩
  | cons transfer transfers ih =>
      obtain ⟨received, sent, same⟩ := ih (State.transfer fd state transfer)
      exact ⟨received, sent, same⟩

theorem getElem?_giveUp (inside : slot < state.clients.length) (other : Nat) (real : fd ≠ -1) :
    (state.clients.set slot (-1))[other]? = some fd ↔
      other ≠ slot ∧ state.clients[other]? = some fd := by
  rw [List.getElem?_set]
  by_cases here : slot = other
  · subst here
    rw [if_pos rfl, if_pos inside]
    simp [Ne.symm real]
  · rw [if_neg here]
    simp [Ne.symm here]

/-- What is open is what is left in the slots. -/
theorem Accounts.account_giveUp (accounts : Accounts serverFd state)
    (there : state.clients[slot]? = some fd) (real : fd ≠ -1) (other : Int) :
    Function.update state.isOpen fd false other = true ↔
      (other ≠ -1 ∧ ∃ found : Nat, (state.clients.set slot (-1))[found]? = some other) ∨
        other ∈ state.turnedAway := by
  have inside := (List.getElem?_eq_some_iff.mp there).1
  by_cases same : other = fd
  · subst same
    rw [Function.update_self]
    apply iff_of_false (by decide)
    rintro (⟨_, another, found⟩ | turned)
    · obtain ⟨apart, found⟩ := (getElem?_giveUp inside another real).mp found
      exact apart (accounts.distinct _ _ _ found there real)
    · exact accounts.apart _ turned slot there
  · rw [Function.update_of_ne same, accounts.account]
    apply or_congr_left
    apply and_congr_right
    intro isReal
    apply exists_congr
    intro another
    rw [getElem?_giveUp inside another isReal]
    constructor
    · intro found
      refine ⟨?_, found⟩
      rintro rfl
      rw [there] at found
      exact same (Option.some_inj.mp found).symm
    · exact And.right

theorem Accounts.giveUp (accounts : Accounts serverFd state)
    (there : state.clients[slot]? = some fd) (natural : 0 ≤ fd) (client : fd ≠ serverFd) :
    Accounts serverFd (state.giveUp slot fd) := by
  have real : fd ≠ -1 := by omega
  have wasOpen : state.isOpen fd = true := (accounts.account fd).mpr (.inl ⟨real, slot, there⟩)
  have behind : slot ≠ 0 := by
    rintro rfl
    rw [accounts.server] at there
    exact client (Option.some_inj.mp there).symm
  have listening := accounts.listening
  have slots (other : Nat) (found : Int) (isReal : found ≠ -1) :=
    getElem?_giveUp (List.getElem?_eq_some_iff.mp there).1 other isReal
  refine ⟨accounts.listening, ?_, ?_, ?_, ?_, accounts.account_giveUp there real, ?_,
    accounts.natural_update natural false, ?_, ?_⟩
  · exact (List.length_set ..).trans accounts.size
  · exact Nat.le_trans (Nat.le_of_eq (List.length_set ..)) accounts.bounded
  · exact (slots 0 serverFd (by omega)).mpr ⟨Ne.symm behind, accounts.server⟩
  · intro first second found here also isReal
    exact accounts.distinct first second found ((slots _ _ isReal).mp here).2
      ((slots _ _ isReal).mp also).2 isReal
  · intro other turned another found
    have isNatural := accounts.natural other ((accounts.account other).mpr (.inr turned))
    exact accounts.apart other turned another ((slots _ _ (by omega)).mp found).2
  · intro turned
    exact (List.length_set ..).trans (accounts.full turned)
  · intro call member
    rcases List.mem_cons.mp member with rfl | old
    · exact wasOpen
    · exact accounts.closes call old

theorem Accounts.finishClient (accounts : Accounts serverFd state)
    (there : state.clients[slot]? = some fd) (natural : 0 ≤ fd) (client : fd ≠ serverFd)
    (ending : Ending) : Accounts serverFd (state.finishClient slot fd ending) := by
  have read (received : Int → Bytes) : Accounts serverFd { state with received := received } :=
    accounts.of_same rfl rfl rfl rfl rfl
  cases ending with
  | wouldBlock => exact accounts
  | readFailed => exact accounts.giveUp there natural client
  | endOfStream => exact accounts.giveUp there natural client
  | writeFailed data => exact (read _).giveUp there natural client

theorem Scanning.pop {rest : List Nat} (scanning : Scanning state)
    (batch : state.pending = slot :: rest) : Scanning { state with pending := rest } := by
  have nodup := scanning.nodup
  rw [batch, List.nodup_cons] at nodup
  refine ⟨nodup.2, fun other member => scanning.used other ?_⟩
  rw [batch]
  exact List.mem_cons_of_mem _ member

theorem Scanning.natural {rest : List Nat} (scanning : Scanning state)
    (batch : state.pending = slot :: rest) (there : state.clients[slot]? = some fd) : 0 ≤ fd := by
  obtain ⟨found, same, natural⟩ := scanning.used slot (by simp [batch])
  rw [there] at same
  cases same
  exact natural

/-- The slots that are left stay in use. -/
theorem Scanning.finishClient {rest : List Nat} (scanning : Scanning state)
    (batch : state.pending = slot :: rest) (ending : Ending) :
    Scanning ({ state with pending := rest }.finishClient slot fd ending) := by
  have nodup := scanning.nodup
  rw [batch, List.nodup_cons] at nodup
  have left := (scanning.pop batch).used
  have given : ∀ other ∈ rest, ∃ found,
      (state.clients.set slot (-1))[other]? = some found ∧ 0 ≤ found := by
    intro other member
    have apart : slot ≠ other := by
      rintro rfl
      exact nodup.1 member
    rw [List.getElem?_set_ne apart]
    exact left other member
  cases ending with
  | wouldBlock => exact ⟨nodup.2, left⟩
  | readFailed => exact ⟨nodup.2, given⟩
  | endOfStream => exact ⟨nodup.2, given⟩
  | writeFailed data => exact ⟨nodup.2, given⟩

theorem Scanning.accept (scanning : Scanning state) (fd : Int) : Scanning (state.accept fd) := by
  unfold State.accept
  dsimp only
  split
  · exact ⟨scanning.nodup, scanning.used⟩
  · rename_i next found
    have free := (free_of_findSlot found).1
    refine ⟨scanning.nodup, fun other member => ?_⟩
    obtain ⟨client, there, natural⟩ := scanning.used other member
    have apart : other ≠ next := by
      rintro rfl
      exact free.ne_some (by omega) there
    refine ⟨client, ?_, natural⟩
    dsimp only
    rw [getElem?_put free.le_length, if_neg apart]
    exact there

theorem acceptLoop_sound {accepted : List Int} (accounts : Accounts serverFd state)
    (scanning : Scanning state) (accepts : State.acceptLoop accepted state = some next) :
    Accounts serverFd next ∧ Scanning next := by
  induction accepted generalizing state with
  | nil =>
      cases accepts
      exact ⟨accounts, scanning⟩
  | cons fd rest ih =>
      rw [State.acceptLoop, Option.ite_none_right_eq_some] at accepts
      obtain ⟨⟨natural, closed⟩, accepts⟩ := accepts
      exact ih (accounts.accept natural closed) (scanning.accept fd) accepts

end Serve

/-- At the end only the clients that were turned away are open. -/
structure Settled (state : State) : Prop where
  account : ∀ fd, state.isOpen fd = true ↔ fd ∈ state.turnedAway
  closes : ∀ call ∈ state.closed, call.2 = true
  idle : state.pending = []

section ShutDown

variable {serverFd : Int} {state : State}

/-- The elements of a kind that are in one place each. -/
theorem nodup_filter {α : Type*} {kind : α → Bool} {entries : List α}
    (once : ∀ (first second : Nat) entry, entries[first]? = some entry →
      entries[second]? = some entry → kind entry = true → first = second) :
    (entries.filter kind).Nodup := by
  induction entries with
  | nil => exact List.nodup_nil
  | cons entry entries ih =>
      have later : (entries.filter kind).Nodup := by
        apply ih
        intro first second other here there ofKind
        exact Nat.succ.inj (once (first + 1) (second + 1) other here there ofKind)
      rw [List.filter_cons]
      split
      · rename_i ofKind
        rw [List.nodup_cons]
        refine ⟨fun member => ?_, later⟩
        obtain ⟨place, there⟩ := List.mem_iff_getElem?.mp (List.mem_of_mem_filter member)
        exact absurd (once 0 (place + 1) entry rfl there ofKind) (Nat.succ_ne_zero place).symm
      · exact later

theorem foldl_close {fds : List Int} (distinct : fds.Nodup)
    (open_ : ∀ fd ∈ fds, state.isOpen fd = true)
    (closes : ∀ call ∈ state.closed, call.2 = true) :
    (∀ fd, (fds.foldl State.close state).isOpen fd = true ↔
        state.isOpen fd = true ∧ fd ∉ fds) ∧
      (∀ call ∈ (fds.foldl State.close state).closed, call.2 = true) ∧
      (fds.foldl State.close state).turnedAway = state.turnedAway ∧
      (fds.foldl State.close state).pending = state.pending := by
  induction fds generalizing state with
  | nil =>
      refine ⟨fun fd => ?_, closes, rfl, rfl⟩
      simp
  | cons first fds ih =>
      obtain ⟨apart, distinct⟩ := List.nodup_cons.mp distinct
      obtain ⟨isOpen, others⟩ := List.forall_mem_cons.mp open_
      have stillOpen : ∀ fd ∈ fds, (state.close first).isOpen fd = true := by
        intro fd member
        have other : fd ≠ first := by
          rintro rfl
          exact apart member
        dsimp only [State.close]
        rw [Function.update_of_ne other]
        exact others fd member
      have closesNow : ∀ call ∈ (state.close first).closed, call.2 = true :=
        List.forall_mem_cons.mpr ⟨isOpen, closes⟩
      obtain ⟨account, closed, turned, pending⟩ := ih distinct stillOpen closesNow
      refine ⟨fun fd => ?_, closed, turned, pending⟩
      rw [List.foldl_cons, account, List.mem_cons, not_or]
      dsimp only [State.close]
      by_cases here : fd = first
      · subst here
        simp
      · rw [Function.update_of_ne here]
        simp [here]

theorem Accounts.shutDown (accounts : Accounts serverFd state) (idle : state.pending = []) :
    Settled state.shutDown := by
  have once : (state.clients.filter (0 ≤ ·)).Nodup := by
    apply nodup_filter
    intro first second fd here there natural
    have isNatural : 0 ≤ fd := of_decide_eq_true natural
    exact accounts.distinct first second fd here there (by omega)
  have isOpen : ∀ fd ∈ state.clients.filter (0 ≤ ·), state.isOpen fd = true := by
    intro fd member
    obtain ⟨member, natural⟩ := List.mem_filter.mp member
    have isNatural : 0 ≤ fd := of_decide_eq_true natural
    exact (accounts.account fd).mpr (.inl ⟨by omega, List.mem_iff_getElem?.mp member⟩)
  obtain ⟨account, closes, turned, pending⟩ := foldl_close once isOpen accounts.closes
  refine ⟨fun fd => ?_, closes, pending.trans idle⟩
  dsimp only [State.shutDown]
  rw [account, turned, List.mem_filter, decide_eq_true_eq]
  constructor
  · rintro ⟨stillOpen, unlisted⟩
    rcases (accounts.account fd).mp stillOpen with ⟨_, there⟩ | member
    · exact absurd ⟨List.mem_iff_getElem?.mpr there, accounts.natural fd stillOpen⟩ unlisted
    · exact member
  · intro member
    refine ⟨(accounts.account fd).mpr (.inr member), ?_⟩
    rintro ⟨listed, _⟩
    obtain ⟨slot, there⟩ := List.mem_iff_getElem?.mp listed
    exact accounts.apart fd member slot there

end ShutDown

section Runs

variable {serverFd : Int} {state next : State} {action : Action}

/-- The server runs with its accounts in order, or it has ended so. -/
inductive Ledger (serverFd : Int) (state : State) : Prop
  | looping (phase : state.phase = .looping) (accounts : Accounts serverFd state)
      (scanning : Scanning state)
  | ended (phase : state.phase = .ended) (settled : Settled state)

theorem ledger_start (listening : 0 ≤ serverFd) : Ledger serverFd (.start serverFd) :=
  .looping rfl (accounts_start listening)
    ⟨List.nodup_nil, fun _ member => absurd member List.not_mem_nil⟩

theorem acceptLoop_phase {accepted : List Int}
    (accepts : State.acceptLoop accepted state = some next) : next.phase = state.phase := by
  induction accepted generalizing state with
  | nil =>
      cases accepts
      rfl
  | cons fd rest ih =>
      rw [State.acceptLoop, Option.ite_none_right_eq_some] at accepts
      rw [ih accepts.2]
      unfold State.accept
      dsimp only
      split
      · rfl
      · rfl

theorem finishClient_phase (slot : Nat) (fd : Int) (ending : Ending) :
    (state.finishClient slot fd ending).phase = state.phase := by
  cases ending <;> rfl

theorem Ledger.step (ledger : Ledger serverFd state)
    (steps : step serverFd state action = some next) : Ledger serverFd next := by
  have stepped := stepped_of_step steps
  cases ledger with
  | ended phase settled =>
      rcases stepped.running with looping | busy
      · rw [phase] at looping
        cases looping
      · exact absurd settled.idle busy
  | looping phase accounts scanning =>
      cases stepped with
      | poll _ _ _ nodup used =>
          exact .looping phase (accounts.of_same rfl rfl rfl rfl rfl) ⟨nodup, used⟩
      | pollFails _ idle => exact .ended rfl (accounts.shutDown idle)
      | finish _ idle => exact .ended rfl (accounts.shutDown idle)
      | @acceptAll accepted failed slot rest looped batch server accepts =>
          have popped : Accounts serverFd { state with pending := rest } :=
            accounts.of_same rfl rfl rfl rfl rfl
          obtain ⟨kept, scans⟩ := acceptLoop_sound popped (scanning.pop batch) accepts
          exact .looping ((acceptLoop_phase accepts).trans phase)
            (kept.of_same rfl rfl rfl rfl rfl) ⟨scans.nodup, scans.used⟩
      | @serve transfers ending slot rest fd batch there client =>
          have natural := scanning.natural batch there
          obtain ⟨received, sent, transferred⟩ :=
            exists_transfers transfers fd { state with pending := rest }
          rw [transferred]
          refine .looping ((finishClient_phase slot fd ending).trans phase) ?_ ?_
          · have read : Accounts serverFd { state with
                pending := rest
                received := received
                sent := sent } := accounts.of_same rfl rfl rfl rfl rfl
            exact read.finishClient there natural client ending
          · have read : Scanning { state with received := received, sent := sent } :=
              ⟨scanning.nodup, scanning.used⟩
            exact read.finishClient batch ending

/-- While the server runs, each open descriptor is in one slot or was turned away
from a full table, which is as long as the most slots in use together; when it
has ended, only those that were turned away are open; and nothing is closed twice. -/
theorem ledger_of_run (listening : 0 ≤ serverFd) {actions : List Action} {last : State}
    (run : Run (PollServer.step serverFd) anything (.start serverFd) actions last) :
    Ledger serverFd last := by
  apply run.invariant _ (ledger_start listening)
  intro first action next ledger _ steps
  exact ledger.step steps

/-- Two clients, of which the first leaves its slot to a third. -/
def threeClients : List Action :=
  [.poll [0], .acceptAll [4, 5] false, .poll [1], .serve [⟨bytes "ab", 2⟩] .endOfStream,
    .poll [0, 2], .acceptAll [4] true, .serve [⟨bytes "c", 1⟩] .wouldBlock, .finish]

theorem ledger_of_run_three : ∃ last,
    Run (PollServer.step 3) anything (.start 3) threeClients last ∧
    last.closed = [(5, true), (4, true), (3, true), (4, true)] ∧ Ledger 3 last := by
  have executes : (exec (PollServer.step 3) (.start 3) threeClients).map State.closed =
      some [(5, true), (4, true), (3, true), (4, true)] := by
    decide +kernel
  obtain ⟨last, run, closed⟩ := exists_run_of_exec executes
  exact ⟨last, run, closed, ledger_of_run (by decide) run⟩

end Runs

end PollServer

end Libjaypea
