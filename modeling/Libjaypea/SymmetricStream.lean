import Libjaypea.SymmetricTransport

/-!
# How the network may cut the stream

A stream of messages reaches the receiver in pieces, a number of bytes being
there at each read.  `recv` keeps nothing from one call to the next and takes
a short read for an error, so that only cuts that leave every frame whole when
it is read are harmless.
-/

namespace Libjaypea

namespace SymmetricEncryptor

/-- The bytes not yet read, and how many of them are there at each of the next
reads. -/
structure Socket where
  stream : Bytes
  schedule : List Nat

/-- Nothing there is `EWOULDBLOCK`; asked for nothing, `read` returns zero. -/
def answer (stream : Bytes) (asked there : Nat) : Read :=
  if asked ≠ 0 ∧ stream.take (min asked there) = [] then .wouldBlock
  else .received (stream.take (min asked there))

/-- The reads of the loop for the block, up to one that does not block. -/
def blockReads (asked : Nat) (stream : Bytes) : List Nat → List Read × Socket
  | [] => ([], ⟨stream, []⟩)
  | there :: schedule =>
      match answer stream asked there with
      | .wouldBlock =>
          let later := blockReads asked stream schedule
          (.wouldBlock :: later.1, later.2)
      | first => ([first], ⟨stream.drop (min asked there), schedule⟩)

/-- The number of bytes that `recv` asks for after its first read. -/
def blockSize (crypto : CryptoPP) (transaction : Int32) : Read → Nat
  | .received data => (decryptTransaction crypto data transaction).elim 0 uint32Value
  | _ => 0

/-- One call of `recv`; `none` when there are no more reads to return from. -/
def call (crypto : CryptoPP) (callback : Bytes → Int) (transaction : Int32) (socket : Socket) :
    Option (Received × Socket) :=
  match socket.schedule with
  | [] => none
  | there :: schedule =>
      let first := answer socket.stream 89 there
      let stream := socket.stream.drop (min 89 there)
      match recv crypto packetLimit callback transaction [first] with
      | some received => some (received, ⟨stream, schedule⟩)
      | none =>
          let reads := blockReads (blockSize crypto transaction first) stream schedule
          (recv crypto packetLimit callback transaction (first :: reads.1)).map
            fun received => (received, reads.2)

def session (crypto : CryptoPP) (callback : Bytes → Int) :
    Nat → Int32 → Socket → List Received × Socket
  | 0, _, socket => ([], socket)
  | calls + 1, transaction, socket =>
      match call crypto callback transaction socket with
      | none => ([], socket)
      | some (received, rest) =>
          let later := session crypto callback calls received.transaction rest
          (received :: later.1, later.2)

/-- No call returns an error; what the callback returns is its own. -/
def Faultless (calls : List Received) : Prop :=
  ∀ received ∈ calls, received.delivered = [] → received.result = 0

instance (calls : List Received) : Decidable (Faultless calls) :=
  inferInstanceAs (Decidable (∀ received ∈ calls, received.delivered = [] → received.result = 0))

def payloads (calls : List Received) : List Bytes :=
  calls.flatMap Received.delivered

/-- A payload, and the memory behind its size frame. -/
structure Message where
  text : Bytes
  stale : Memory

namespace Message

def wire (crypto : CryptoPP) (transaction : Int32) (message : Message) : Bytes :=
  fullWire crypto message.stale message.text transaction

def block (crypto : CryptoPP) (transaction : Int32) (message : Message) : Bytes :=
  encryptTransaction crypto message.text transaction

/-- The first 89 bytes: the size frame and what lies behind it. -/
def size (crypto : CryptoPP) (transaction : Int32) (message : Message) : Bytes :=
  (message.wire crypto transaction).take 89

/-- The size frame decrypts, and announces a block that the receiver has room for. -/
def Accepted (crypto : CryptoPP) (transaction : Int32) (message : Message) : Prop :=
  decrypt crypto (message.size crypto transaction) ≠ none ∧
    (message.block crypto transaction).length < packetLimit

/-- If the size frame decrypts with the bytes behind it, then to what was encrypted. -/
def Unforged (crypto : CryptoPP) (transaction : Int32) (message : Message) : Prop :=
  ∀ plain, decrypt crypto (message.size crypto transaction) = some plain →
    plain = transactionByte transaction :: uint32Bytes (message.block crypto transaction).length

theorem size_length (crypto : CryptoPP) (transaction : Int32) (message : Message) :
    (message.size crypto transaction).length = 89 :=
  (congrArg List.length (fullWire_take crypto message.stale message.text transaction)).trans
    (Memory.bytesAt_length _ 1 89)

theorem wire_append (crypto : CryptoPP) (transaction : Int32) (message : Message) (later : Bytes) :
    message.wire crypto transaction ++ later =
      message.size crypto transaction ++ (message.block crypto transaction ++ later) := by
  have rest : (message.wire crypto transaction).drop 89 = message.block crypto transaction :=
    fullWire_drop crypto message.stale message.text transaction
  rw [← List.append_assoc, ← rest]
  exact congrArg (· ++ later) (List.take_append_drop 89 _).symm

end Message

/-- The stream of successful calls of `send`; no `write` takes more than
`0x7ffff000` bytes. -/
inductive Written (crypto : CryptoPP) : Int32 → List Message → Bytes → Prop
  | nil (transaction : Int32) : Written crypto transaction [] []
  | cons {transaction : Int32} {message : Message} {messages : List Message} {stream : Bytes}
      {data : Memory} {sizeWrite : Option Nat} {taken fuel : Nat} {sent : Sent}
      (text : data.string fuel 1 = some message.text)
      (sends : send crypto data message.stale transaction sizeWrite (some taken) fuel = some sent)
      (succeeds : sent.failed = false)
      (small : taken ≤ 0x7ffff000)
      (later : Written crypto sent.transaction messages stream) :
      Written crypto transaction (message :: messages) (sent.wire ++ stream)

/-- Of the messages sent one after the other each has the property. -/
def Each (property : Int32 → Message → Prop) : Int32 → List Message → Prop
  | _, [] => True
  | transaction, message :: messages =>
      property transaction message ∧ Each property (transaction + 1) messages

/-- The numbers of bytes that `recv` asks for. -/
def frameSizes (crypto : CryptoPP) : Int32 → List Message → List Nat
  | _, [] => []
  | transaction, message :: messages =>
      89 :: (message.block crypto transaction).length ::
        frameSizes crypto (transaction + 1) messages

/-- Whenever bytes are there, the whole frame is. -/
def Whole : List Nat → List Nat → Prop
  | [], _ => True
  | _ :: _, [] => True
  | size :: sizes, 0 :: schedule => Whole (size :: sizes) schedule
  | size :: sizes, there :: schedule => size ≤ there ∧ Whole sizes schedule

theorem whole_cons {size there : Nat} {sizes schedule : List Nat} (some_there : there ≠ 0) :
    Whole (size :: sizes) (there :: schedule) ↔ size ≤ there ∧ Whole sizes schedule := by
  cases there with
  | zero => exact absurd rfl some_there
  | succ there => rfl

section Reads

variable {frame : Bytes} {there : Nat}

theorem answer_zero (stream : Bytes) {asked : Nat} (asks : asked ≠ 0) :
    answer stream asked 0 = .wouldBlock := by
  simp [answer, asks]

theorem answer_append (nonempty : frame.length ≠ 0) (some_there : there ≠ 0) (later : Bytes) :
    answer (frame ++ later) frame.length there = .received (frame.take there) := by
  have inFrame : (frame ++ later).take (min frame.length there) = frame.take there := by
    rw [List.take_append_of_le_length (Nat.min_le_left _ _), Nat.min_comm, ← List.take_take,
      List.take_length]
  have taken : frame.take there ≠ [] := by
    apply List.ne_nil_of_length_pos
    rw [List.length_take]
    omega
  unfold answer
  rw [inFrame, if_neg fun nothing => taken nothing.2]

theorem drop_append_of_whole (whole : frame.length ≤ there) (later : Bytes) :
    (frame ++ later).drop (min frame.length there) = later := by
  rw [Nat.min_eq_left whole, List.drop_left]

theorem blockReads_zero {asked : Nat} (asks : asked ≠ 0) (stream : Bytes) (schedule : List Nat) :
    blockReads asked stream (0 :: schedule) =
      (.wouldBlock :: (blockReads asked stream schedule).1,
        (blockReads asked stream schedule).2) := by
  rw [blockReads, answer_zero stream asks]

theorem blockReads_cons (nonempty : frame.length ≠ 0) (some_there : there ≠ 0) (later : Bytes)
    (schedule : List Nat) :
    blockReads frame.length (frame ++ later) (there :: schedule) =
      ([.received (frame.take there)],
        ⟨(frame ++ later).drop (min frame.length there), schedule⟩) := by
  rw [blockReads, answer_append nonempty some_there]

end Reads

section Calls

variable (crypto : CryptoPP) (callback : Bytes → Int) (transaction : Int32) (message : Message)

/-- What the loop for the block makes of a schedule. -/
inductive BlockRead (later : Bytes) (schedule : List Nat) : Option Received → Socket → Prop
  | starved (socket : Socket) : BlockRead later schedule none socket
  | short (socket : Socket)
      (cut : ∀ sizes, ¬ Whole ((message.block crypto transaction).length :: sizes) schedule) :
      BlockRead later schedule (some ⟨-3, [], transaction⟩) socket
  | delivers (rest : List Nat)
      (whole : ∀ sizes, Whole ((message.block crypto transaction).length :: sizes) schedule ↔
        Whole sizes rest) :
      BlockRead later schedule (some ⟨callback message.text, [message.text], transaction + 1⟩)
        ⟨later, rest⟩

/-- What one call makes of the next message. -/
inductive Attempt (later : Bytes) (schedule : List Nat) : Option (Received × Socket) → Prop
  | starved : Attempt later schedule none
  | idle (rest : List Nat) (waits : schedule = 0 :: rest) :
      Attempt later schedule
        (some (⟨0, [], transaction⟩, ⟨message.wire crypto transaction ++ later, rest⟩))
  | fails (received : Received) (socket : Socket) (nothing : received.delivered = [])
      (error : received.result ≠ 0)
      (refused : message.Accepted crypto transaction → ∀ sizes,
        ¬ Whole (89 :: (message.block crypto transaction).length :: sizes) schedule) :
      Attempt later schedule (some (received, socket))
  | delivers (rest : List Nat) (accepted : message.Accepted crypto transaction)
      (whole : ∀ sizes, Whole (89 :: (message.block crypto transaction).length :: sizes) schedule ↔
        Whole sizes rest) :
      Attempt later schedule
        (some (⟨callback message.text, [message.text], transaction + 1⟩, ⟨later, rest⟩))

variable {crypto callback transaction message}

theorem BlockRead.wait {later : Bytes} {schedule : List Nat} {result : Option Received}
    {socket : Socket}
    (read : BlockRead crypto callback transaction message later schedule result socket) :
    BlockRead crypto callback transaction message later (0 :: schedule) result socket := by
  cases read with
  | starved => exact .starved socket
  | short _ cut => exact .short socket cut
  | delivers rest whole => exact .delivers rest whole

variable (lawful : crypto.Lawful) (callback transaction message)

include lawful

theorem blockRead_of_schedule (later : Bytes) (schedule : List Nat) :
    BlockRead crypto callback transaction message later schedule
      (recvBlock crypto (message.block crypto transaction).length callback transaction
        (blockReads (message.block crypto transaction).length
          (message.block crypto transaction ++ later) schedule).1)
      (blockReads (message.block crypto transaction).length
        (message.block crypto transaction ++ later) schedule).2 := by
  have nonempty : (message.block crypto transaction).length ≠ 0 :=
    encryptTransaction_length_ne lawful message.text transaction
  have decrypts : decryptTransaction crypto (message.block crypto transaction) transaction =
      some message.text := decryptTransaction_encryptTransaction lawful message.text transaction
  induction schedule with
  | nil => exact .starved _
  | cons there schedule ih =>
      by_cases some_there : there = 0
      · subst some_there
        rw [blockReads_zero nonempty]
        exact ih.wait
      · rw [blockReads_cons nonempty some_there]
        by_cases whole : (message.block crypto transaction).length ≤ there
        · rw [List.take_of_length_le whole, drop_append_of_whole whole]
          simp only [recvBlock, nonempty, decrypts, ne_eq, not_true_eq_false, if_false]
          refine .delivers schedule fun sizes => ?_
          rw [whole_cons some_there]
          exact and_iff_right whole
        · have taken : ((message.block crypto transaction).take there).length = there := by
            rw [List.length_take]
            omega
          have other : there ≠ (message.block crypto transaction).length := by omega
          simp only [recvBlock, taken, some_there, other, ne_eq, not_false_eq_true, if_true,
            if_false]
          refine .short _ fun sizes cut => whole ?_
          exact ((whole_cons some_there).mp cut).1

omit lawful in
theorem call_zero (stream : Bytes) (schedule : List Nat) :
    call crypto callback transaction ⟨stream, 0 :: schedule⟩ =
      some (⟨0, [], transaction⟩, ⟨stream, schedule⟩) := by
  unfold call
  dsimp only
  rw [answer_zero _ (by decide)]
  rfl

omit lawful in
theorem call_short {there : Nat} (some_there : there ≠ 0) (short : there < 89) (later : Bytes)
    (schedule : List Nat) :
    ∃ socket, call crypto callback transaction
        ⟨message.wire crypto transaction ++ later, there :: schedule⟩ =
      some (⟨-3, [], transaction⟩, socket) := by
  have length := message.size_length crypto transaction
  have nonempty : (message.size crypto transaction).length ≠ 0 := by omega
  have first := answer_append nonempty some_there (message.block crypto transaction ++ later)
  have taken : ((message.size crypto transaction).take there).length = there := by
    rw [List.length_take]
    omega
  rw [length] at first
  unfold call
  simp only [message.wire_append, first, recv, taken, some_there, Nat.ne_of_lt short,
    ne_eq, not_false_eq_true, if_true, if_false]
  exact ⟨_, rfl⟩

omit lawful in
theorem call_whole {there : Nat} (whole : 89 ≤ there) (later : Bytes) (schedule : List Nat) :
    call crypto callback transaction
        ⟨message.wire crypto transaction ++ later, there :: schedule⟩ =
      match recv crypto packetLimit callback transaction
          [.received (message.size crypto transaction)] with
      | some received =>
          some (received, ⟨message.block crypto transaction ++ later, schedule⟩)
      | none =>
          let reads := blockReads
            (blockSize crypto transaction (.received (message.size crypto transaction)))
            (message.block crypto transaction ++ later) schedule
          (recv crypto packetLimit callback transaction
              (.received (message.size crypto transaction) :: reads.1)).map
            fun received => (received, reads.2) := by
  have length := message.size_length crypto transaction
  have inside : (message.size crypto transaction).length ≤ there := by omega
  have nonempty : (message.size crypto transaction).length ≠ 0 := by omega
  have some_there : there ≠ 0 := by omega
  have first := answer_append nonempty some_there (message.block crypto transaction ++ later)
  have rest := drop_append_of_whole inside (message.block crypto transaction ++ later)
  rw [length] at first rest
  unfold call
  simp only [message.wire_append, first, rest, List.take_of_length_le inside]

theorem attempt_of_whole (unforged : message.Unforged crypto transaction)
    (small : (message.block crypto transaction).length < 2 ^ 32) {there : Nat}
    (whole : 89 ≤ there) (later : Bytes) (schedule : List Nat) :
    Attempt crypto callback transaction message later (there :: schedule)
      (call crypto callback transaction
        ⟨message.wire crypto transaction ++ later, there :: schedule⟩) := by
  have length := message.size_length crypto transaction
  have some_there : there ≠ 0 := by omega
  rw [call_whole callback transaction message whole]
  cases decrypted : decrypt crypto (message.size crypto transaction) with
  | none =>
      have refuses : decryptTransaction crypto (message.size crypto transaction) transaction =
          none := by
        simp [decryptTransaction, decrypted]
      simp only [recv, length, refuses, ne_eq, not_true_eq_false, if_false,
        show ¬ 89 = 0 by decide]
      exact .fails _ _ rfl (by simp) fun accepted => absurd decrypted accepted.1
  | some plain =>
      have announces : decryptTransaction crypto (message.size crypto transaction) transaction =
          some (uint32Bytes (message.block crypto transaction).length) := by
        simp [decryptTransaction, decrypted, unforged plain decrypted]
      have asks : blockSize crypto transaction (.received (message.size crypto transaction)) =
          (message.block crypto transaction).length := by
        simp only [blockSize, announces, Option.elim_some]
        exact uint32Value_uint32Bytes small
      simp only [recv_cons_of_decrypts length announces small, asks]
      by_cases fits : (message.block crypto transaction).length < packetLimit
      · have accepted : message.Accepted crypto transaction := by
          refine ⟨?_, fits⟩
          intro nothing
          cases decrypted.symm.trans nothing
        simp only [Nat.not_le.mpr fits, if_false, recvBlock]
        have read := blockRead_of_schedule callback transaction message lawful later schedule
        generalize blockReads (message.block crypto transaction).length
          (message.block crypto transaction ++ later) schedule = reads at read ⊢
        obtain ⟨reads, socket⟩ := reads
        dsimp only at read ⊢
        generalize recvBlock crypto (message.block crypto transaction).length callback transaction
          reads = result at read ⊢
        cases read with
        | starved => exact .starved
        | short _ cut =>
            refine .fails _ _ rfl (by simp) fun _ sizes both => ?_
            exact cut sizes ((whole_cons some_there).mp both).2
        | delivers left same =>
            refine .delivers left accepted fun sizes => ?_
            rw [whole_cons some_there, ← same sizes]
            exact and_iff_right whole
      · simp only [Nat.not_lt.mp fits, if_true]
        exact .fails _ _ rfl (by simp) fun accepted => absurd accepted.2 fits

theorem attempt_of_schedule (unforged : message.Unforged crypto transaction)
    (small : (message.block crypto transaction).length < 2 ^ 32) (later : Bytes)
    (schedule : List Nat) :
    Attempt crypto callback transaction message later schedule
      (call crypto callback transaction ⟨message.wire crypto transaction ++ later, schedule⟩) := by
  cases schedule with
  | nil => exact .starved
  | cons there schedule =>
      by_cases some_there : there = 0
      · subst some_there
        rw [call_zero]
        exact .idle schedule rfl
      rcases Nat.lt_or_ge there 89 with short | whole
      · obtain ⟨socket, calls⟩ :=
          call_short callback transaction message some_there short later schedule
        rw [calls]
        refine .fails _ _ rfl (by simp) fun _ sizes cut => ?_
        exact absurd ((whole_cons some_there).mp cut).1 (Nat.not_le.mpr short)
      · exact attempt_of_whole callback transaction message lawful unforged small whole later schedule

end Calls

@[simp]
theorem faultless_cons {received : Received} {calls : List Received} :
    Faultless (received :: calls) ↔
      (received.delivered = [] → received.result = 0) ∧ Faultless calls :=
  List.forall_mem_cons

@[simp]
theorem payloads_cons (received : Received) (calls : List Received) :
    payloads (received :: calls) = received.delivered ++ payloads calls := rfl

section Session

variable {crypto : CryptoPP} {callback : Bytes → Int} {transaction : Int32} {socket : Socket}

theorem session_of_none (calls : Nat) (starved : call crypto callback transaction socket = none) :
    session crypto callback (calls + 1) transaction socket = ([], socket) := by
  rw [session, starved]

theorem session_of_some (calls : Nat) {received : Received} {rest : Socket}
    (returns : call crypto callback transaction socket = some (received, rest)) :
    session crypto callback (calls + 1) transaction socket =
      (received :: (session crypto callback calls received.transaction rest).1,
        (session crypto callback calls received.transaction rest).2) := by
  rw [session, returns]

theorem call_nil (there : Nat) (schedule : List Nat) :
    call crypto callback transaction ⟨[], there :: schedule⟩ =
      some (⟨0, [], transaction⟩, ⟨[], schedule⟩) := by
  simp [call, answer, recv]

/-- What each message of the stream puts there. -/
theorem Written.cons_eq {message : Message} {messages : List Message} {stream : Bytes}
    (written : Written crypto transaction (message :: messages) stream) :
    ∃ later, stream = message.wire crypto transaction ++ later ∧
      (message.block crypto transaction).length < 2 ^ 32 ∧
      Written crypto (transaction + 1) messages later := by
  cases written with
  | @cons _ _ _ later _ sizeWrite taken fuel sent text sends succeeds small written =>
      obtain ⟨other, read, -, all, wire⟩ := send_succeeds sends succeeds
      cases text.symm.trans read
      have next : sent.transaction = transaction + 1 := send_transaction sends
      refine ⟨later, by rw [wire]; rfl, ?_, next ▸ written⟩
      have length : taken = (message.block crypto transaction).length := Option.some.inj all
      omega

theorem Written.eq_nil {messages : List Message} {stream : Bytes}
    (written : Written crypto transaction messages stream) (empty : stream = []) :
    messages = [] := by
  cases messages with
  | nil => rfl
  | cons message messages =>
      obtain ⟨later, rfl, -⟩ := written.cons_eq
      have long := congrArg List.length (empty.symm.trans (message.wire_append crypto _ later))
      rw [List.length_append, message.size_length, List.length_nil] at long
      omega

/-- A session that takes in the whole stream is free of errors exactly if every
message is accepted and no frame is cut, and then it delivers them all. -/
theorem session_of_written (lawful : crypto.Lawful) {messages : List Message} {stream : Bytes}
    (written : Written crypto transaction messages stream)
    (unforged : Each (fun number message => message.Unforged crypto number) transaction messages)
    (calls : Nat) {schedule : List Nat}
    (drained : (session crypto callback calls transaction ⟨stream, schedule⟩).2.stream = []) :
    (Faultless (session crypto callback calls transaction ⟨stream, schedule⟩).1 ↔
      Each (fun number message => message.Accepted crypto number) transaction messages ∧
        Whole (frameSizes crypto transaction messages) schedule) ∧
    (Faultless (session crypto callback calls transaction ⟨stream, schedule⟩).1 →
      payloads (session crypto callback calls transaction ⟨stream, schedule⟩).1 =
        messages.map Message.text) := by
  induction calls generalizing transaction messages stream schedule with
  | zero =>
      cases written.eq_nil drained
      simp [session, Faultless, payloads, Each, frameSizes, Whole]
  | succ calls ih =>
      cases messages with
      | nil =>
          cases written
          cases schedule with
          | nil => simp [session, call, Faultless, payloads, Each, frameSizes, Whole]
          | cons there schedule =>
              rw [session_of_some calls (call_nil there schedule)] at drained ⊢
              simpa [Each, frameSizes, Whole] using ih (.nil transaction) trivial drained
      | cons message messages =>
          obtain ⟨later, rfl, small, rest⟩ := written.cons_eq
          have attempt := attempt_of_schedule callback transaction message lawful unforged.1 small
            later schedule
          generalize called : call crypto callback transaction _ = result at attempt
          cases attempt with
          | starved =>
              rw [session_of_none calls called] at drained
              cases written.eq_nil drained
          | idle left waits =>
              subst waits
              rw [session_of_some calls called] at drained ⊢
              simpa [frameSizes, Whole] using ih written unforged drained
          | fails received socket nothing error refused =>
              rw [session_of_some calls called]
              have failed : ¬ Faultless (received ::
                  (session crypto callback calls received.transaction socket).1) := by
                rw [faultless_cons]
                exact fun faultless => error (faultless.1 nothing)
              refine ⟨iff_of_false failed ?_, fun faultless => absurd faultless failed⟩
              rintro ⟨accepted, whole⟩
              exact refused accepted.1 _ whole
          | delivers left accepted whole =>
              rw [session_of_some calls called] at drained ⊢
              obtain ⟨fault, all⟩ := ih rest unforged.2 drained
              simp only [faultless_cons, payloads_cons, Each, frameSizes, whole, accepted,
                true_and, List.map_cons]
              refine ⟨?_, fun faultless => congrArg (message.text :: ·) (all faultless.2)⟩
              simpa using fault

end Session

/-- Two ways through the same stream agree and are free of errors exactly when
every message is accepted and neither way cuts a frame. -/
theorem faultless_iff_whole {crypto : CryptoPP} (lawful : crypto.Lawful) (callback : Bytes → Int)
    {messages : List Message} {stream : Bytes} (written : Written crypto 0 messages stream)
    (unforged : Each (fun number message => message.Unforged crypto number) 0 messages)
    {firstCalls secondCalls : Nat} {first second : List Nat}
    (firstDrained : (session crypto callback firstCalls 0 ⟨stream, first⟩).2.stream = [])
    (secondDrained : (session crypto callback secondCalls 0 ⟨stream, second⟩).2.stream = []) :
    Faultless (session crypto callback firstCalls 0 ⟨stream, first⟩).1 ∧
        Faultless (session crypto callback secondCalls 0 ⟨stream, second⟩).1 ∧
        payloads (session crypto callback firstCalls 0 ⟨stream, first⟩).1 =
          payloads (session crypto callback secondCalls 0 ⟨stream, second⟩).1 ↔
      Each (fun number message => message.Accepted crypto number) 0 messages ∧
        Whole (frameSizes crypto 0 messages) first ∧
        Whole (frameSizes crypto 0 messages) second := by
  obtain ⟨firstFault, firstAll⟩ := session_of_written lawful written unforged firstCalls firstDrained
  obtain ⟨secondFault, secondAll⟩ :=
    session_of_written lawful written unforged secondCalls secondDrained
  constructor
  · rintro ⟨firstFaultless, secondFaultless, -⟩
    obtain ⟨accepted, firstWhole⟩ := firstFault.mp firstFaultless
    exact ⟨accepted, firstWhole, (secondFault.mp secondFaultless).2⟩
  · rintro ⟨accepted, firstWhole, secondWhole⟩
    have firstFaultless := firstFault.mpr ⟨accepted, firstWhole⟩
    have secondFaultless := secondFault.mpr ⟨accepted, secondWhole⟩
    refine ⟨firstFaultless, secondFaultless, ?_⟩
    rw [firstAll firstFaultless, secondAll secondFaultless]

namespace Sample

def greetingMessage : Message := ⟨bytes "hi", fun _ => 0⟩

theorem written_greetingMessage : Written crypto 0 [greetingMessage] wire := by
  have small : 65 ≤ 0x7ffff000 := by decide
  have text : greetingMemory.string 3 1 = some greetingMessage.text := string_greetingMemory
  have written := Written.cons text send_greeting rfl small (.nil _)
  rwa [List.append_nil] at written

theorem decrypt_greetingMessage : decrypt crypto (greetingMessage.size crypto 0) =
    some (transactionByte 0 :: uint32Bytes (greetingMessage.block crypto 0).length) :=
  decrypt_fullWire_take crypto_lawful (fun _ => 0) (bytes "hi") 0 (by decide +kernel)

theorem unforged_greetingMessage :
    Each (fun number message => message.Unforged crypto number) 0 [greetingMessage] := by
  refine ⟨fun plain decrypts => ?_, trivial⟩
  exact Option.some.inj (decrypts.symm.trans decrypt_greetingMessage)

theorem accepted_greetingMessage :
    Each (fun number message => message.Accepted crypto number) 0 [greetingMessage] := by
  refine ⟨⟨?_, ?_⟩, trivial⟩
  · intro nothing
    cases decrypt_greetingMessage.symm.trans nothing
  · rw [Message.block, greetingMessage, length_greeting]
    decide

theorem frameSizes_greetingMessage : frameSizes crypto 0 [greetingMessage] = [89, 65] := by
  simp [frameSizes, Message.block, greetingMessage, length_greeting]

/-- The frames come in one by one, with a pause between them. -/
def pausing : List Nat := [89, 0, 65]

/-- All has come in before the first read. -/
def merged : List Nat := [154, 65]

/-- The size frame comes in two pieces. -/
def cut : List Nat := [40, 49, 65]

theorem drained_pausing : (session crypto (fun _ => 1) 3 0 ⟨wire, pausing⟩).2.stream = [] := by
  decide +kernel

theorem drained_merged : (session crypto (fun _ => 1) 3 0 ⟨wire, merged⟩).2.stream = [] := by
  decide +kernel

theorem drained_cut : (session crypto (fun _ => 1) 3 0 ⟨wire, cut⟩).2.stream = [] := by
  decide +kernel

end Sample

/-- A pause between the frames and frames that come in together do no harm. -/
theorem faultless_iff_whole_merged :
    Faultless (session Sample.crypto (fun _ => 1) 3 0 ⟨Sample.wire, Sample.pausing⟩).1 ∧
      Faultless (session Sample.crypto (fun _ => 1) 3 0 ⟨Sample.wire, Sample.merged⟩).1 ∧
      payloads (session Sample.crypto (fun _ => 1) 3 0 ⟨Sample.wire, Sample.pausing⟩).1 =
        payloads (session Sample.crypto (fun _ => 1) 3 0 ⟨Sample.wire, Sample.merged⟩).1 := by
  apply (faultless_iff_whole Sample.crypto_lawful (fun _ => 1) Sample.written_greetingMessage
    Sample.unforged_greetingMessage Sample.drained_pausing Sample.drained_merged).mpr
  refine ⟨Sample.accepted_greetingMessage, ?_, ?_⟩
  · simp [Sample.frameSizes_greetingMessage, Sample.pausing, Whole]
  · simp [Sample.frameSizes_greetingMessage, Sample.merged, Whole]

/-- A size frame in two pieces is two errors, and its block a third. -/
theorem not_faultless_cut :
    Written Sample.crypto 0 [Sample.greetingMessage] Sample.wire ∧
      Each (fun number message => message.Accepted Sample.crypto number) 0
        [Sample.greetingMessage] ∧
      (session Sample.crypto (fun _ => 1) 3 0 ⟨Sample.wire, Sample.cut⟩).2.stream = [] ∧
      payloads (session Sample.crypto (fun _ => 1) 3 0 ⟨Sample.wire, Sample.pausing⟩).1 =
        [bytes "hi"] ∧
      payloads (session Sample.crypto (fun _ => 1) 3 0 ⟨Sample.wire, Sample.cut⟩).1 = [] ∧
      ¬ Faultless (session Sample.crypto (fun _ => 1) 3 0 ⟨Sample.wire, Sample.cut⟩).1 :=
  ⟨Sample.written_greetingMessage, Sample.accepted_greetingMessage, Sample.drained_cut,
    by decide +kernel, by decide +kernel, by decide +kernel⟩

end SymmetricEncryptor

end Libjaypea
