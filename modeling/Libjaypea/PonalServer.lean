import Libjaypea.HttpRequestHead
import Libjaypea.NewestWrites
import Libjaypea.Transitions

/-!
# The key-value server

`ponal-server.cpp`: a packet asks for the value of a key or sets one, whatever
connection it comes from, and the server answers with the value, `success` or
`failure`.
-/

namespace Libjaypea

namespace Ponal

open HttpParse (requestStartsWith requestStartsWith_iff)
open Transitions

abbrev Values := KeyedList Bytes Bytes

def getCommand : Bytes := bytes "get "

def setCommand : Bytes := bytes "set "

def exitCommand : Bytes := bytes "exit"

def success : Bytes := bytes "success"

def failure : Bytes := bytes "failure"

/-- The variables of the loop in `set_value`. -/
structure Splitting where
  getKey : Bool
  key : Bytes
  value : Bytes

/-- Only the first space is left out. -/
def splitByte (splitting : Splitting) (byte : UInt8) : Splitting :=
  if byte = ch ' ' ∧ splitting.getKey then { splitting with getKey := false }
  else if splitting.getKey then { splitting with key := splitting.key ++ [byte] }
  else { splitting with value := splitting.value ++ [byte] }

/-- `none` when it returns 1. -/
def setValue (values : Values) (keyAndValue : Bytes) : Option Values :=
  let split := keyAndValue.foldl splitByte ⟨true, [], []⟩
  if split.key.length = 0 ∨ split.value.length = 0 then none
  else some (values.set split.key split.value)

/-- The buffer after `recv`: a terminator and older bytes lie behind the packet. -/
def buffer (stale : Memory) (packet : Bytes) : Memory :=
  fun address => (packet ++ [0])[address]?.getD (stale address)

/-- The values after `on_read`, and the response that it tries to write, if any. -/
def respond (values : Values) (stale : Memory) (packet : Bytes) : Values × Option Bytes :=
  if requestStartsWith (buffer stale packet) 0 getCommand then
    (values, some ((values.get? (cString (packet.drop 4))).getD failure))
  else if requestStartsWith (buffer stale packet) 0 setCommand then
    match setValue values (cString (packet.drop 4)) with
    | some written => (written, some success)
    | none => (values, some failure)
  else if requestStartsWith (buffer stale packet) 0 exitCommand then (values, none)
  else (values, some failure)

/-- What `on_read` returns: `true` after `exit` and when `write` fails. -/
def returned (response : Option Bytes) (written : Bool) : Int :=
  if response.isSome ∧ written then 0 else 1

section Splitting

variable {values next : Values}

theorem foldl_splitByte_key {text : Bytes} (noSpace : ch ' ' ∉ text) (key value : Bytes) :
    text.foldl splitByte ⟨true, key, value⟩ = ⟨true, key ++ text, value⟩ := by
  induction text generalizing key with
  | nil => simp
  | cons byte text ih =>
      rw [List.mem_cons, not_or] at noSpace
      have taken : splitByte ⟨true, key, value⟩ byte = ⟨true, key ++ [byte], value⟩ := by
        simp [splitByte, Ne.symm noSpace.1]
      rw [List.foldl_cons, taken, ih noSpace.2, List.append_assoc, List.singleton_append]

theorem foldl_splitByte_value (text key value : Bytes) :
    text.foldl splitByte ⟨false, key, value⟩ = ⟨false, key, value ++ text⟩ := by
  induction text generalizing value with
  | nil => simp
  | cons byte text ih =>
      have taken : splitByte ⟨false, key, value⟩ byte = ⟨false, key, value ++ [byte]⟩ := by
        simp [splitByte]
      rw [List.foldl_cons, taken, ih, List.append_assoc, List.singleton_append]

theorem foldl_splitByte {key value : Bytes} (noSpace : ch ' ' ∉ key) :
    (key ++ ch ' ' :: value).foldl splitByte ⟨true, [], []⟩ = ⟨false, key, value⟩ := by
  rw [List.foldl_append, foldl_splitByte_key noSpace, List.foldl_cons]
  exact foldl_splitByte_value value key []

/-- The key ends at the first space, and neither part may be empty. -/
theorem setValue_eq_some_iff {text : Bytes} : setValue values text = some next ↔
    ∃ key value, text = key ++ ch ' ' :: value ∧ ch ' ' ∉ key ∧ key ≠ [] ∧ value ≠ [] ∧
      next = values.set key value := by
  constructor
  · intro sets
    rw [setValue] at sets
    by_cases spaced : ch ' ' ∈ text
    · obtain ⟨key, value, rfl, noSpace⟩ := List.eq_append_cons_of_mem spaced
      rw [foldl_splitByte noSpace] at sets
      simp only [List.length_eq_zero_iff, Option.ite_none_left_eq_some, not_or,
        Option.some_inj] at sets
      obtain ⟨⟨hasKey, hasValue⟩, same⟩ := sets
      exact ⟨key, value, rfl, noSpace, hasKey, hasValue, same.symm⟩
    · rw [foldl_splitByte_key spaced] at sets
      simp at sets
  · rintro ⟨key, value, rfl, noSpace, hasKey, hasValue, rfl⟩
    rw [setValue, foldl_splitByte noSpace]
    simp [hasKey, hasValue]

end Splitting

/-- The packet is a command that sets the key. -/
def Sets (packet key value : Bytes) : Prop :=
  cString packet = setCommand ++ (key ++ ch ' ' :: value) ∧ ch ' ' ∉ key ∧ key ≠ [] ∧ value ≠ []

/-- What a packet has to be answered with, after the packets before it. -/
structure Right (earlier : List Bytes) (packet : Bytes) (response : Option Bytes) : Prop where
  found : ∀ key value, cString packet = getCommand ++ key → Newest Sets earlier key value →
    response = some value
  missing : ∀ key, cString packet = getCommand ++ key →
    (∀ value, ¬ Newest Sets earlier key value) → response = some failure
  stored : ∀ key value, Sets packet key value → response = some success
  refused : setCommand <+: cString packet → (∀ key value, ¬ Sets packet key value) →
    response = some failure
  exit : exitCommand <+: cString packet → response = none
  unknown : ¬ getCommand <+: cString packet → ¬ setCommand <+: cString packet →
    ¬ exitCommand <+: cString packet → response = some failure

/-- A packet of some connection. -/
structure Request where
  stale : Memory
  packet : Bytes

structure State where
  values : Values
  /-- The packets so far with their responses, the oldest first. -/
  history : List (Bytes × Option Bytes)

def State.start : State := ⟨[], []⟩

def step (state : State) (request : Request) : Option State :=
  let reply := respond state.values request.stale request.packet
  some ⟨reply.1, state.history ++ [(request.packet, reply.2)]⟩

theorem holds_buffer (stale : Memory) (packet : Bytes) :
    (buffer stale packet).Holds 0 (packet ++ [0]) := by
  rw [Memory.holds_iff]
  intro index bound
  rw [Nat.zero_add, buffer, List.getElem?_eq_getElem bound]
  rfl

/-- A literal that is found at a string lies in front of its terminator. -/
theorem holds_iff_isPrefix {memory : Memory} {text literal : Bytes} (noZero : 0 ∉ literal)
    {start : Nat} (there : memory.Holds start (text ++ [0])) :
    memory.Holds start literal ↔ literal <+: cString text := by
  induction literal generalizing text start with
  | nil => simp
  | cons byte literal ih =>
      rw [List.mem_cons, not_or] at noZero
      cases text with
      | nil =>
          have zero : memory start = 0 := there.1
          simp [zero, noZero.1]
      | cons first text =>
          rw [Memory.holds_cons, there.1, ih noZero.2 there.2, cString_cons]
          split
          · rename_i zero
            simp [zero, noZero.1]
          · rw [List.cons_prefix_cons, eq_comm]

theorem startsWith_iff (stale : Memory) (packet : Bytes) {literal : Bytes}
    (nonempty : literal ≠ []) (noZero : 0 ∉ literal) :
    requestStartsWith (buffer stale packet) 0 literal = true ↔ literal <+: cString packet := by
  rw [requestStartsWith_iff 0 nonempty]
  exact holds_iff_isPrefix noZero (holds_buffer stale packet)

/-- Behind a command, the rest of the string. -/
theorem cString_drop {packet literal rest : Bytes} (noZero : 0 ∉ literal)
    (starts : cString packet = literal ++ rest) : cString (packet.drop literal.length) = rest := by
  induction literal generalizing packet with
  | nil => exact starts
  | cons byte literal ih =>
      rw [List.mem_cons, not_or] at noZero
      cases packet with
      | nil => cases starts
      | cons first packet =>
          rw [cString_cons] at starts
          split at starts
          · cases starts
          · obtain ⟨_, later⟩ := List.cons.inj starts
            exact ih noZero.2 later

/-- Two commands of one length start one string only if they are the same. -/
theorem command_eq {text command other : Bytes} (starts : command <+: text)
    (startsToo : other <+: text) (long : command.length = other.length) : command = other :=
  (List.prefix_of_prefix_length_le starts startsToo (Nat.le_of_eq long)).eq_of_length long

section Respond

variable {values : Values} {stale : Memory} {packet : Bytes}

theorem respond_get {key : Bytes} (asks : cString packet = getCommand ++ key) :
    respond values stale packet = (values, some ((values.get? key).getD failure)) := by
  have starts : getCommand <+: cString packet := ⟨key, asks.symm⟩
  have noZero : 0 ∉ getCommand := by decide
  have rest : cString (packet.drop 4) = key := cString_drop noZero asks
  rw [respond, if_pos ((startsWith_iff stale packet (by decide) (by decide)).mpr starts), rest]

theorem not_startsWith {command other : Bytes} (starts : command <+: cString packet)
    (long : command.length = other.length) (apart : command ≠ other) (nonempty : other ≠ [])
    (noZero : 0 ∉ other) : ¬ requestStartsWith (buffer stale packet) 0 other = true := by
  rw [startsWith_iff stale packet nonempty noZero]
  exact fun startsToo => apart (command_eq starts startsToo long)

theorem respond_set {text : Bytes} (sets : cString packet = setCommand ++ text) :
    respond values stale packet =
      match setValue values text with
      | some written => (written, some success)
      | none => (values, some failure) := by
  have starts : setCommand <+: cString packet := ⟨text, sets.symm⟩
  have noZero : 0 ∉ setCommand := by decide
  have rest : cString (packet.drop 4) = text := cString_drop noZero sets
  have notGet : ¬ requestStartsWith (buffer stale packet) 0 getCommand = true :=
    not_startsWith starts rfl (by decide) (by decide) (by decide)
  rw [respond, if_neg notGet,
    if_pos ((startsWith_iff stale packet (by decide) (by decide)).mpr starts), rest]

theorem respond_exit (starts : exitCommand <+: cString packet) :
    respond values stale packet = (values, none) := by
  have notGet : ¬ requestStartsWith (buffer stale packet) 0 getCommand = true :=
    not_startsWith starts rfl (by decide) (by decide) (by decide)
  have notSet : ¬ requestStartsWith (buffer stale packet) 0 setCommand = true :=
    not_startsWith starts rfl (by decide) (by decide) (by decide)
  rw [respond, if_neg notGet, if_neg notSet,
    if_pos ((startsWith_iff stale packet (by decide) (by decide)).mpr starts)]

theorem respond_unknown (notGet : ¬ getCommand <+: cString packet)
    (notSet : ¬ setCommand <+: cString packet) (notExit : ¬ exitCommand <+: cString packet) :
    respond values stale packet = (values, some failure) := by
  rw [← startsWith_iff stale packet (by decide) (by decide)] at notGet notSet notExit
  rw [respond, if_neg notGet, if_neg notSet, if_neg notExit]

theorem sets_iff {key value : Bytes} (sets : Sets packet key value) (other changed : Bytes) :
    Sets packet other changed ↔ other = key ∧ changed = value := by
  constructor
  · intro also
    have same := List.append_cancel_left (also.1.symm.trans sets.1)
    have split := @foldl_splitByte other changed also.2.1
    rw [same, foldl_splitByte sets.2.1] at split
    cases split
    exact ⟨rfl, rfl⟩
  · rintro ⟨rfl, rfl⟩
    exact sets

/-- A command to set is carried out, or it sets nothing. -/
theorem respond_of_set (starts : setCommand <+: cString packet) :
    (∃ key value, Sets packet key value ∧
        respond values stale packet = (values.set key value, some success)) ∨
      ((∀ key value, ¬ Sets packet key value) ∧
        respond values stale packet = (values, some failure)) := by
  obtain ⟨text, sets⟩ := starts
  rw [respond_set sets.symm]
  cases outcome : setValue values text with
  | none =>
      right
      refine ⟨fun key value setsKey => ?_, rfl⟩
      have same := List.append_cancel_left (sets.trans setsKey.1)
      have written : setValue values text = some (values.set key value) :=
        setValue_eq_some_iff.mpr ⟨key, value, same, setsKey.2.1, setsKey.2.2.1, setsKey.2.2.2, rfl⟩
      rw [outcome] at written
      cases written
  | some written =>
      obtain ⟨key, value, rfl, noSpace, hasKey, hasValue, rfl⟩ := setValue_eq_some_iff.mp outcome
      exact .inl ⟨key, value, ⟨sets.symm, noSpace, hasKey, hasValue⟩, rfl⟩

theorem not_sets (notSet : ¬ setCommand <+: cString packet) (key value : Bytes) :
    ¬ Sets packet key value :=
  fun sets => notSet ⟨_, sets.1.symm⟩

/-- What is no command to set leaves the table as it is. -/
theorem respond_values (notSet : ¬ setCommand <+: cString packet) :
    (respond values stale packet).1 = values := by
  by_cases gets : getCommand <+: cString packet
  · obtain ⟨key, asks⟩ := gets
    rw [respond_get asks.symm]
  · by_cases leaves : exitCommand <+: cString packet
    · rw [respond_exit leaves]
    · rw [respond_unknown gets notSet leaves]

variable {earlier : List Bytes}

theorem tracks_respond (tracks : Tracks Sets earlier values) :
    Tracks Sets (earlier ++ [packet]) (respond values stale packet).1 := by
  by_cases starts : setCommand <+: cString packet
  · rcases respond_of_set starts with ⟨key, value, sets, stores⟩ | ⟨silent, refuses⟩
    · rw [stores]
      exact tracks.set (sets_iff sets)
    · rw [refuses]
      exact tracks.silent silent
  · rw [respond_values starts]
    exact tracks.silent (not_sets starts)

theorem right_respond (tracks : Tracks Sets earlier values) :
    Right earlier packet (respond values stale packet).2 where
  found key value asks newest := by
    rw [respond_get asks, (tracks key value).mpr newest]
    rfl
  missing key asks never := by
    rw [respond_get asks, tracks.get?_eq_none never]
    rfl
  stored key value sets := by
    rcases respond_of_set ⟨_, sets.1.symm⟩ with ⟨_, _, _, stores⟩ | ⟨silent, _⟩
    · rw [stores]
    · exact absurd sets (silent key value)
  refused starts silent := by
    rcases respond_of_set starts with ⟨key, value, sets, _⟩ | ⟨_, refuses⟩
    · exact absurd sets (silent key value)
    · rw [refuses]
  exit starts := by
    rw [respond_exit starts]
  unknown notGet notSet notExit := by
    rw [respond_unknown notGet notSet notExit]

end Respond

/-- The table tracks the packets, and every response so far was right. -/
structure Faithful (state : State) : Prop where
  tracks : Tracks Sets (state.history.map Prod.fst) state.values
  right : ∀ before exchange after, state.history = before ++ exchange :: after →
    Right (before.map Prod.fst) exchange.1 exchange.2

theorem faithful_start : Faithful State.start :=
  ⟨tracks_nil, fun before exchange after split => by simp [State.start] at split⟩

theorem Faithful.step {state next : State} {request : Request} (faithful : Faithful state)
    (steps : step state request = some next) : Faithful next := by
  cases steps
  constructor
  · dsimp only
    rw [List.map_append, List.map_singleton]
    exact tracks_respond faithful.tracks
  · apply forall_split_append faithful.right
    exact right_respond faithful.tracks

/-- In every run, however the packets of the connections are interleaved, a value
is answered exactly as it was set last, and only well-formed commands set any.
The calls of `on_read` come one after the other here; the source shares the values
and the response between its threads without a lock. -/
theorem right_of_run {requests : List Request} {last : State}
    (run : Run step anything State.start requests last)
    (before : List (Bytes × Option Bytes)) (exchange : Bytes × Option Bytes)
    (after : List (Bytes × Option Bytes)) (split : last.history = before ++ exchange :: after) :
    Right (before.map Prod.fst) exchange.1 exchange.2 :=
  (run.invariant (fun _ _ _ faithful _ => faithful.step) faithful_start).right
    before exchange after split

/-- The key is set twice and asked for. -/
theorem right_of_run_asked : ∃ last,
    Run step anything State.start
      ([bytes "set a 1", bytes "set a 2 3", bytes "get a"].map fun packet => ⟨fun _ => 0, packet⟩)
      last ∧
    last.history.map Prod.snd = [some success, some success, some (bytes "2 3")] ∧
    Right [bytes "set a 1", bytes "set a 2 3"] (bytes "get a") (some (bytes "2 3")) := by
  have executes : (exec step State.start
      ([bytes "set a 1", bytes "set a 2 3", bytes "get a"].map fun packet =>
        (⟨fun _ => 0, packet⟩ : Request))).map State.history =
      some [(bytes "set a 1", some success), (bytes "set a 2 3", some success),
        (bytes "get a", some (bytes "2 3"))] := by
    decide
  obtain ⟨last, run, history⟩ := exists_run_of_exec executes
  refine ⟨last, run, by rw [history]; rfl, ?_⟩
  exact right_of_run run [(bytes "set a 1", some success), (bytes "set a 2 3", some success)]
    (bytes "get a", some (bytes "2 3")) [] history

end Ponal

end Libjaypea
