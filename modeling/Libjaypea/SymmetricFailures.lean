import Libjaypea.SymmetricStream

/-!
# Sends that fail

`send` counts a message before its first `write`, and it returns from either
write with whatever that has put on the wire.  A caller that goes on after a
reported failure has counted a message that the receiver never counts.
-/

namespace Libjaypea

namespace SymmetricEncryptor

/-- One call of `send`: its payload, the memory behind its size frame and what
its two writes return. -/
structure SendCall where
  text : Bytes
  data : Memory
  held : data.HoldsString 1 text
  stale : Memory
  sizeWrite : Option Nat
  blockWrite : Option Nat
  /-- No `write` takes more. -/
  limit : ∀ taken ∈ blockWrite, taken ≤ 0x7ffff000

namespace SendCall

def message (call : SendCall) : Message :=
  ⟨call.text, call.stale⟩

def run (crypto : CryptoPP) (counter : Int32) (call : SendCall) : Option Sent :=
  send crypto call.data call.stale counter call.sizeWrite call.blockWrite (call.text.length + 1)

/-- Both writes take all they are given. -/
def Complete (crypto : CryptoPP) (counter : Int32) (call : SendCall) : Prop :=
  call.sizeWrite = some 89 ∧
    call.blockWrite = some (encryptTransaction crypto call.text counter).length

variable {crypto : CryptoPP} {counter : Int32} {call : SendCall} {sent : Sent}

theorem string_data (call : SendCall) :
    call.data.string (call.text.length + 1) 1 = some call.text :=
  Memory.string_of_holdsString call.held

theorem run_of_complete (complete : call.Complete crypto counter) :
    call.run crypto counter =
      some ⟨false, counter + 1, call.message.wire crypto counter⟩ := by
  obtain ⟨size, block⟩ := complete
  rw [run, size, block]
  exact send_complete crypto call.stale call.held counter

/-- A call is reported as sent exactly when both writes are complete. -/
theorem reported_iff (runs : call.run crypto counter = some sent) :
    sent.failed = false ↔ call.Complete crypto counter := by
  constructor
  · intro succeeds
    obtain ⟨text, read, size, block, -⟩ := send_succeeds runs succeeds
    cases read.symm.trans call.string_data
    exact ⟨size, block⟩
  · intro complete
    rw [run_of_complete complete] at runs
    cases runs
    rfl

/-- A first write that fails puts nothing on the wire. -/
theorem run_of_lost (lost : call.sizeWrite = none) :
    call.run crypto counter = some ⟨true, counter + 1, []⟩ := by
  rw [run, lost, send, call.string_data]
  rfl

theorem exists_run (crypto : CryptoPP) (counter : Int32) (call : SendCall) :
    ∃ sent, call.run crypto counter = some sent :=
  ⟨_, congrArg (Option.map _) call.string_data⟩

theorem transaction_of_run (runs : call.run crypto counter = some sent) :
    sent.transaction = counter + 1 :=
  send_transaction runs

end SendCall

/-- A caller that sends on whatever `send` returns: the counter before the calls
and behind them, the bytes on the wire, and the messages reported as sent. -/
inductive Sends (crypto : CryptoPP) :
    Int32 → List SendCall → Int32 → Bytes → List Message → Prop
  | nil (counter : Int32) : Sends crypto counter [] counter [] []
  | reported {counter last : Int32} {call : SendCall} {calls : List SendCall} {stream : Bytes}
      {messages : List Message} {sent : Sent} (runs : call.run crypto counter = some sent)
      (succeeds : sent.failed = false)
      (later : Sends crypto sent.transaction calls last stream messages) :
      Sends crypto counter (call :: calls) last (sent.wire ++ stream) (call.message :: messages)
  | failed {counter last : Int32} {call : SendCall} {calls : List SendCall} {stream : Bytes}
      {messages : List Message} {sent : Sent} (runs : call.run crypto counter = some sent)
      (fails : sent.failed = true)
      (later : Sends crypto sent.transaction calls last stream messages) :
      Sends crypto counter (call :: calls) last (sent.wire ++ stream) messages

/-- Of the calls made one after the other each is complete. -/
def AllComplete (crypto : CryptoPP) : Int32 → List SendCall → Prop
  | _, [] => True
  | counter, call :: calls => call.Complete crypto counter ∧ AllComplete crypto (counter + 1) calls

/-- Of the calls made one after the other each adds one to the counter when it
reports success, and leaves it as it was when it reports failure. -/
def Counts (crypto : CryptoPP) : Int32 → List SendCall → Prop
  | _, [] => True
  | counter, call :: calls => ∀ sent, call.run crypto counter = some sent →
      sent.transaction = (if sent.failed then counter else counter + 1) ∧
        Counts crypto sent.transaction calls

section Runs

variable {crypto : CryptoPP} {counter last : Int32} {calls : List SendCall} {stream : Bytes}
  {reported : List Message}

/-- The counter goes up with the messages reported as sent only if no write
fails or is short. -/
theorem counts_iff (crypto : CryptoPP) (counter : Int32) (calls : List SendCall) :
    Counts crypto counter calls ↔ AllComplete crypto counter calls := by
  induction calls generalizing counter with
  | nil => exact Iff.rfl
  | cons call calls ih =>
      rw [Counts, AllComplete]
      constructor
      · intro counts
        obtain ⟨sent, runs⟩ := call.exists_run crypto counter
        obtain ⟨advances, later⟩ := counts sent runs
        rw [SendCall.transaction_of_run runs] at advances later
        have succeeds : sent.failed = false := by
          by_contra fails
          rw [if_pos (Bool.not_eq_false _ ▸ fails)] at advances
          exact absurd advances (by simp)
        exact ⟨(SendCall.reported_iff runs).mp succeeds, (ih _).mp later⟩
      · rintro ⟨complete, later⟩ sent runs
        rw [SendCall.transaction_of_run runs, (SendCall.reported_iff runs).mpr complete]
        exact ⟨rfl, (ih _).mpr later⟩

theorem Sends.written (sends : Sends crypto counter calls last stream reported)
    (complete : AllComplete crypto counter calls) :
    Written crypto counter reported stream ∧ reported = calls.map SendCall.message := by
  induction sends with
  | nil counter => exact ⟨.nil counter, rfl⟩
  | @reported _ _ call _ _ _ sent runs succeeds _ ih =>
      obtain ⟨here, later⟩ := complete
      rw [← SendCall.transaction_of_run runs] at later
      obtain ⟨written, messages⟩ := ih later
      refine ⟨?_, congrArg (call.message :: ·) messages⟩
      have taken : (encryptTransaction crypto call.text _).length ≤ 0x7ffff000 :=
        call.limit _ here.2
      have sends := runs
      rw [SendCall.run, here.2] at sends
      exact .cons call.string_data sends succeeds taken written
  | failed runs fails =>
      rw [(SendCall.reported_iff runs).mpr complete.1] at fails
      cases fails

end Runs

/-- The counter goes up exactly for the messages reported as sent, and the
receiver takes all of these and nothing else. -/
structure Harmless (crypto : CryptoPP) (callback : Bytes → Int) (counter : Int32)
    (calls : List SendCall) (reported : List Message) (received : List Received) : Prop where
  counted : Counts crypto counter calls
  accepted : Faultless received
  delivered : payloads received = reported.map Message.text

/-- After any run of calls no harm is done exactly when every write of it has
been complete, every message is accepted and no frame is cut when it is read. -/
theorem harmless_iff {crypto : CryptoPP} (lawful : crypto.Lawful) (callback : Bytes → Int)
    {counter last : Int32} {calls : List SendCall} {stream : Bytes} {reported : List Message}
    (sends : Sends crypto counter calls last stream reported)
    (unforged : Each (fun number message => message.Unforged crypto number) counter
      (calls.map SendCall.message))
    {reads : Nat} {schedule : List Nat}
    (drained : (session crypto callback reads counter ⟨stream, schedule⟩).2.stream = []) :
    Harmless crypto callback counter calls reported
        (session crypto callback reads counter ⟨stream, schedule⟩).1 ↔
      AllComplete crypto counter calls ∧
        Each (fun number message => message.Accepted crypto number) counter
          (calls.map SendCall.message) ∧
        Whole (frameSizes crypto counter (calls.map SendCall.message)) schedule := by
  constructor
  · rintro ⟨counted, accepted, -⟩
    -- Every call raises the counter, so that none may have failed.
    have complete := (counts_iff crypto counter calls).mp counted
    obtain ⟨written, rfl⟩ := sends.written complete
    exact ⟨complete, (session_of_written lawful written unforged reads drained).1.mp accepted⟩
  · rintro ⟨complete, accepted⟩
    obtain ⟨written, rfl⟩ := sends.written complete
    obtain ⟨faultless, delivers⟩ := session_of_written lawful written unforged reads drained
    exact ⟨(counts_iff crypto counter calls).mpr complete, faultless.mpr accepted,
      delivers (faultless.mpr accepted)⟩

section Lost

variable {crypto : CryptoPP} {message : Message} {later : Bytes}

/-- A message that is not the next one for the receiver is refused. -/
theorem call_refuses {number expected : Int32} (unforged : message.Unforged crypto number)
    (other : transactionByte number ≠ transactionByte expected) (callback : Bytes → Int)
    {there : Nat} (whole : 89 ≤ there) (later : Bytes) (schedule : List Nat) :
    ∃ socket, call crypto callback expected
        ⟨message.wire crypto number ++ later, there :: schedule⟩ =
      some (⟨-4, [], expected⟩, socket) := by
  have length := message.size_length crypto number
  have inside : (message.size crypto number).length ≤ there := by omega
  have nonempty : (message.size crypto number).length ≠ 0 := by omega
  have someThere : there ≠ 0 := by omega
  have first := answer_append nonempty someThere (message.block crypto number ++ later)
  rw [length, List.take_of_length_le inside] at first
  have refuses : decryptTransaction crypto (message.size crypto number) expected = none := by
    cases decrypted : decrypt crypto (message.size crypto number) with
    | none => simp [decryptTransaction, decrypted]
    | some plain => simp [decryptTransaction, decrypted, unforged plain decrypted, other]
  unfold call
  simp only [message.wire_append, first, recv, length, refuses, ne_eq, not_true_eq_false, if_false,
    show ¬ 89 = 0 by decide]
  exact ⟨_, rfl⟩

/-- Nothing of a call whose first write fails reaches the receiver, which then
takes the next message, reported as sent, for an attack. -/
theorem refused_behind_lost {counter last : Int32} {lost next : SendCall}
    {calls : List SendCall} {stream : Bytes} {reported : List Message}
    (sends : Sends crypto counter (lost :: next :: calls) last stream reported)
    (nothing : lost.sizeWrite = none) (complete : next.Complete crypto (counter + 1))
    (unforged : next.message.Unforged crypto (counter + 1)) (callback : Bytes → Int) {there : Nat}
    (whole : 89 ≤ there) (schedule : List Nat) :
    ∃ socket, call crypto callback counter ⟨stream, there :: schedule⟩ =
      some (⟨-4, [], counter⟩, socket) := by
  have other := transactionByte_succ_ne counter
  have lostRuns : lost.run crypto counter = _ := SendCall.run_of_lost nothing
  have nextRuns := SendCall.run_of_complete complete
  -- The two runs are known, which leaves one way for the calls to go.
  cases sends with
  | reported runs succeeds =>
      cases lostRuns.symm.trans runs
      cases succeeds
  | failed runs _ rest =>
      cases lostRuns.symm.trans runs
      cases rest with
      | reported runs =>
          cases nextRuns.symm.trans runs
          exact call_refuses unforged other callback whole _ schedule
      | failed runs fails =>
          cases nextRuns.symm.trans runs
          cases fails

end Lost

namespace Sample

/-- A greeting whose two writes return the given numbers. -/
def greetingCall (sizeWrite blockWrite : Option Nat)
    (limit : ∀ taken ∈ blockWrite, taken ≤ 0x7ffff000) : SendCall where
  text := bytes "hi"
  data := greetingMemory
  held := Memory.holdsString_of_string string_greetingMemory
  stale := fun _ => 0
  sizeWrite := sizeWrite
  blockWrite := blockWrite
  limit := limit

def wholeCall : SendCall :=
  greetingCall (some 89) (some 65) (by decide)

/-- The first write fails, and there is no second one. -/
def lostCall : SendCall :=
  greetingCall none none (by decide)

theorem complete_wholeCall (counter : Int32) : wholeCall.Complete crypto counter :=
  ⟨rfl, congrArg some (length_greeting counter).symm⟩

theorem sends_wholeCall : Sends crypto 0 [wholeCall] 1 wire [greetingMessage] := by
  have runs := SendCall.run_of_complete (complete_wholeCall 0)
  have sends := Sends.reported runs rfl (.nil _)
  rwa [List.append_nil] at sends

/-- The greeting with the number of a second message. -/
def secondWire : Bytes :=
  greetingMessage.wire crypto 1

theorem sends_lostCall : Sends crypto 0 [lostCall, wholeCall] 2 secondWire [greetingMessage] := by
  have runs := SendCall.run_of_complete (complete_wholeCall 1)
  have lost : lostCall.run crypto 0 = some ⟨true, 1, []⟩ := SendCall.run_of_lost rfl
  have sends := Sends.failed lost rfl (Sends.reported runs rfl (.nil _))
  rwa [List.append_nil, List.nil_append] at sends

end Sample

theorem harmless_iff_wholeCall :
    Harmless Sample.crypto (fun _ => 1) 0 [Sample.wholeCall] [Sample.greetingMessage]
      (session Sample.crypto (fun _ => 1) 3 0 ⟨Sample.wire, Sample.pausing⟩).1 := by
  apply (harmless_iff Sample.crypto_lawful (fun _ => 1) Sample.sends_wholeCall
    Sample.unforged_greetingMessage Sample.drained_pausing).mpr
  refine ⟨⟨Sample.complete_wholeCall 0, trivial⟩, Sample.accepted_greetingMessage, ?_⟩
  have sizes : frameSizes Sample.crypto 0 ([Sample.wholeCall].map SendCall.message) = [89, 65] :=
    Sample.frameSizes_greetingMessage
  rw [sizes]
  simp [Sample.pausing, Whole]

/-- The first write of one greeting fails, the next greeting is reported as sent
with everything on the wire, and the receiver refuses it. -/
theorem not_harmless_lostCall :
    Sends Sample.crypto 0 [Sample.lostCall, Sample.wholeCall] 2 Sample.secondWire
        [Sample.greetingMessage] ∧
      (Sample.lostCall.run Sample.crypto 0).map Sent.failed = some true ∧
      (Sample.wholeCall.run Sample.crypto 1).map Sent.failed = some false ∧
      (session Sample.crypto (fun _ => 1) 2 0 ⟨Sample.secondWire, [154, 65]⟩).1.map
          (fun received => (received.result, received.delivered)) = [(-4, []), (-3, [])] ∧
      ¬ Harmless Sample.crypto (fun _ => 1) 0 [Sample.lostCall, Sample.wholeCall]
          [Sample.greetingMessage]
          (session Sample.crypto (fun _ => 1) 2 0 ⟨Sample.secondWire, [154, 65]⟩).1 := by
  refine ⟨Sample.sends_lostCall, by decide +kernel, by decide +kernel, by decide +kernel, ?_⟩
  intro harmless
  obtain ⟨advances, -⟩ := harmless.counted _ (SendCall.run_of_lost rfl)
  revert advances
  decide

end SymmetricEncryptor

end Libjaypea
