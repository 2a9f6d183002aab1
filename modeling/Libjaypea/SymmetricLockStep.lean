import Libjaypea.SymmetricNetwork

/-!
# Counters in lock step

Over channels that deliver every frame, in order and one to a read, the two
counters of a direction are apart by the messages in flight, so that every
message is accepted and arrives in its place.  That remains so when the counters
wrap around, where the receiver's may be the larger of the two.
-/

namespace Libjaypea

namespace Symmetric

open SymmetricEncryptor

/-- The reads of one call of `recv` at an end, when every read returns one
whole frame of what the other end wrote, the oldest first. -/
inductive Connection.Hands (connection : Connection) (side : Side) : List Read → Prop
  /-- The size frame, and the block at the first read that does not come too early. -/
  | message {size block : Frame} {rest : List Frame} (waits : Nat)
      (next : (connection.channel side.other).frames.drop (connection.channel side.other).taken =
        size :: block :: rest) :
      Hands connection side
        (.received size.data :: (List.replicate waits .wouldBlock ++ [.received block.data]))
  | nothing (drained : (connection.channel side.other).frames.drop
      (connection.channel side.other).taken = []) : Hands connection side [.wouldBlock]
  /-- The other end is closed. -/
  | ended (drained : (connection.channel side.other).frames.drop
      (connection.channel side.other).taken = [])
      (accepted : connection.accepted = true) (closed : connection.place side.other = none) :
      Hands connection side [.received []]

/-- Sends succeed, their framing is intact and fits the receiver, and reads
are those of a reliable channel. -/
def Faithful (crypto : CryptoPP) (network : Network) : Action → Prop
  | .connect _ => True
  | .accept _ _ => True
  | .send i side data stale sizeWrite blockWrite fuel =>
      ∀ connection place, network.connections[i]? = some connection →
        connection.place side = some place →
        (∀ sent, SymmetricEncryptor.send crypto data stale (network.counters place).writes
          sizeWrite blockWrite fuel = some sent → sent.failed = false) ∧
        (∀ byte ∈ stale.bytesAt 67 23, Base64.inAlphabet byte = false) ∧
        ∀ text, data.string fuel 1 = some text → (encryptTransaction crypto text
          (network.counters place).writes).length < packetLimit
  | .recv i side reads _ =>
      ∀ connection, network.connections[i]? = some connection → connection.Hands side reads
  | .close _ _ => True

namespace Channel

/-- The messages whose frames are not read yet. -/
def inFlight (channel : Channel) : Nat :=
  (channel.frames.length - channel.taken) / 2

/-- The frames of payloads sent with the numbers from `number` on. -/
def Encodes (crypto : CryptoPP) : Nat → List Bytes → List Frame → Prop
  | _, [], frames => frames = []
  | number, text :: texts, frames => ∃ (stale : Memory) (size block : Frame) (rest : List Frame),
      frames = size :: block :: rest ∧
      size.data = (fullWire crypto stale text (.ofNat number)).take 89 ∧
      block.data = (fullWire crypto stale text (.ofNat number)).drop 89 ∧
      (∀ byte ∈ stale.bytesAt 67 23, Base64.inAlphabet byte = false) ∧
      (encryptTransaction crypto text (.ofNat number)).length < packetLimit ∧
      Encodes crypto (number + 1) texts rest

/-- What was delivered comes first of what was sent, and the rest is on the wire. -/
structure Carries (crypto : CryptoPP) (channel : Channel) : Prop where
  pending : ∃ texts, channel.sent = channel.delivered ++ texts ∧
    Encodes crypto channel.delivered.length texts (channel.frames.drop channel.taken)
  frames : channel.frames.length = 2 * channel.sent.length
  taken : channel.taken = 2 * channel.delivered.length

variable {crypto : CryptoPP} {channel : Channel}

theorem Encodes.append {number : Nat} {texts : List Bytes} {frames : List Frame}
    (encodes : Encodes crypto number texts frames) {text : Bytes} {stale : Memory}
    {size block : Frame}
    (sizeData : size.data = (fullWire crypto stale text (.ofNat (number + texts.length))).take 89)
    (blockData : block.data = (fullWire crypto stale text (.ofNat (number + texts.length))).drop 89)
    (quiet : ∀ byte ∈ stale.bytesAt 67 23, Base64.inAlphabet byte = false)
    (fits : (encryptTransaction crypto text (.ofNat (number + texts.length))).length <
      packetLimit) :
    Encodes crypto number (texts ++ [text]) (frames ++ [size, block]) := by
  induction texts generalizing number frames with
  | nil =>
      cases encodes
      exact ⟨stale, size, block, [], rfl, sizeData, blockData, quiet, fits, rfl⟩
  | cons first texts ih =>
      obtain ⟨old, oldSize, oldBlock, rest, rfl, oldSizeData, oldBlockData, oldQuiet, oldFits,
        later⟩ := encodes
      have position : number + (first :: texts).length = number + 1 + texts.length := by
        rw [List.length_cons]
        omega
      rw [position] at sizeData blockData fits
      exact ⟨old, oldSize, oldBlock, rest ++ [size, block], rfl, oldSizeData, oldBlockData,
        oldQuiet, oldFits, ih later sizeData blockData fits⟩

theorem carries_empty : empty.Carries crypto :=
  ⟨⟨[], rfl, rfl⟩, rfl, rfl⟩

/-- A send that succeeds. -/
theorem Carries.write (carries : channel.Carries crypto) {text : Bytes} {stale : Memory}
    {size block : Frame}
    (sizeData : size.data = (fullWire crypto stale text (.ofNat channel.sent.length)).take 89)
    (blockData : block.data = (fullWire crypto stale text (.ofNat channel.sent.length)).drop 89)
    (quiet : ∀ byte ∈ stale.bytesAt 67 23, Base64.inAlphabet byte = false)
    (fits : (encryptTransaction crypto text (.ofNat channel.sent.length)).length < packetLimit) :
    (channel.write text [size, block]).Carries crypto := by
  obtain ⟨⟨texts, sent, encodes⟩, frames, taken⟩ := carries
  have length : channel.sent.length = channel.delivered.length + texts.length := by
    rw [sent, List.length_append]
  rw [length] at sizeData blockData fits
  refine ⟨⟨texts ++ [text], ?_, ?_⟩, ?_, taken⟩
  · simp [Channel.write, sent]
  · have within : channel.taken ≤ channel.frames.length := by omega
    have dropped : (channel.write text [size, block]).frames.drop channel.taken =
        channel.frames.drop channel.taken ++ [size, block] :=
      List.drop_append_of_le_length within
    exact dropped ▸ encodes.append sizeData blockData quiet fits
  · simp only [Channel.write, List.length_append, List.length_cons, List.length_nil, frames]
    omega

/-- Reads that would block are tried again. -/
theorem recv_waits (callback : Bytes → Int) (transaction : Int32) (size block : Bytes) (waits : Nat) :
    recv crypto packetLimit callback transaction
        (.received size :: (List.replicate waits .wouldBlock ++ [.received block])) =
      recv crypto packetLimit callback transaction [.received size, .received block] := by
  have again : ∀ blockSize, recvBlock crypto blockSize callback transaction
      (List.replicate waits .wouldBlock ++ [.received block]) =
        recvBlock crypto blockSize callback transaction [.received block] := by
    intro blockSize
    induction waits with
    | zero => rfl
    | succ waits ih => exact ih
  unfold recv
  simp only [again]

/-- The oldest message is accepted. -/
theorem Carries.accepts (lawful : crypto.Lawful) (carries : channel.Carries crypto)
    {size block : Frame} {rest : List Frame}
    (next : channel.frames.drop channel.taken = size :: block :: rest) :
    ∃ payload, channel.sent[channel.delivered.length]? = some payload ∧
      (∀ (callback : Bytes → Int) (waits : Nat),
        recv crypto packetLimit callback (.ofNat channel.delivered.length)
            (.received size.data :: (List.replicate waits .wouldBlock ++ [.received block.data])) =
          some ⟨callback payload, [payload], .ofNat channel.delivered.length + 1⟩) ∧
      ∀ waits, (channel.read
        (.received size.data :: (List.replicate waits .wouldBlock ++ [.received block.data]))
        [payload]).Carries crypto := by
  obtain ⟨⟨texts, sent, encodes⟩, frames, taken⟩ := carries
  rw [next] at encodes
  cases texts with
  | nil => cases encodes
  | cons payload texts =>
      obtain ⟨stale, first, second, others, equal, sizeData, blockData, quiet, fits, later⟩ :=
        encodes
      cases equal
      refine ⟨payload, by simp [sent], ?_, ?_⟩
      · intro callback waits
        rw [recv_waits, sizeData, blockData]
        exact recv_fullWire lawful stale payload _ callback quiet fits
      · intro waits
        have sizeSome : size.data ≠ [] := by
          rw [sizeData, fullWire_take]
          exact List.ne_nil_of_length_pos (by rw [Memory.bytesAt_length]; decide)
        have blockSome : block.data ≠ [] := by
          rw [blockData, fullWire_drop]
          exact fun none => encryptTransaction_length_ne lawful _ _ (congrArg List.length none)
        have count : ((.received size.data :: (List.replicate waits .wouldBlock ++
            [.received block.data])).filterMap Read.data?).length = 2 := by
          simp [Read.data?, sizeSome, blockSome]
        have dropped : channel.frames.drop (channel.taken + 2) = rest := by
          rw [← List.drop_drop, next]
          rfl
        refine ⟨⟨texts, ?_, ?_⟩, frames, ?_⟩
        · simp [Channel.read, sent]
        · simp only [Channel.read, count, dropped, List.length_append, List.length_singleton]
          exact later
        · simp only [Channel.read, count, List.length_append, List.length_singleton, taken]
          omega

/-- The frames not read yet are two for each payload not delivered yet. -/
theorem Carries.inFlight_eq (carries : channel.Carries crypto) :
    channel.inFlight = channel.sent.length - channel.delivered.length := by
  have frames := carries.frames
  have taken := carries.taken
  unfold inFlight
  omega

theorem inFlight_of_drained (drained : channel.frames.drop channel.taken = []) :
    channel.inFlight = 0 := by
  have all := List.drop_eq_nil_iff.mp drained
  unfold inFlight
  omega

theorem read_nothing (channel : Channel) {read : Read} (nothing : read.data? = none) :
    channel.read [read] [] = channel := by
  simp [Channel.read, nothing]

end Channel

/-- What `recv` does with the reads it is handed. -/
theorem Connection.Hands.receives {crypto : CryptoPP} (lawful : crypto.Lawful)
    {connection : Connection} {side : Side} {reads : List Read}
    (hands : connection.Hands side reads)
    (carries : (connection.channel side.other).Carries crypto) (callback : Bytes → Int) :
    ∃ received, recv crypto packetLimit callback
        (.ofNat (connection.channel side.other).delivered.length) reads = some received ∧
      ((connection.channel side.other).read reads received.delivered).Carries crypto ∧
      ((∃ payload, (connection.channel side.other).sent[
          (connection.channel side.other).delivered.length]? = some payload ∧
          received.delivered = [payload] ∧ received.result = callback payload) ∨
        (connection.channel side.other).inFlight = 0 ∧ received.delivered = [] ∧
          (received.result = 0 ∨ received.result = -2)) := by
  cases hands with
  | message waits next =>
      obtain ⟨payload, found, accepts, kept⟩ := carries.accepts lawful next
      exact ⟨_, accepts callback waits, kept waits, .inl ⟨payload, found, rfl, rfl⟩⟩
  | nothing drained =>
      refine ⟨_, rfl, ?_, .inr ⟨Channel.inFlight_of_drained drained, rfl, .inl rfl⟩⟩
      rw [Channel.read_nothing _ rfl]
      exact carries
  | ended drained accepted closed =>
      refine ⟨_, rfl, ?_, .inr ⟨Channel.inFlight_of_drained drained, rfl, .inr rfl⟩⟩
      rw [Channel.read_nothing _ rfl]
      exact carries

/-- Every direction carries what was sent in it. -/
def Network.Carrying (crypto : CryptoPP) (network : Network) : Prop :=
  ∀ (i : Nat) (connection : Connection), network.connections[i]? = some connection →
    ∀ side, (connection.channel side).Carries crypto

section Runs

variable {crypto : CryptoPP} {network next : Network}

theorem Network.Carrying.step (lawful : crypto.Lawful) (counted : network.Counted)
    (carrying : network.Carrying crypto) {action : Action}
    (faithful : Faithful crypto network action) (steps : step crypto network action = some next) :
    next.Carrying crypto := by
  intro i connection there side
  have effect := effect_of_step crypto steps there side
  generalize connection.channel side = channel at effect
  cases effect with
  | new fresh => exact Channel.carries_empty
  | same found => exact carrying i _ found side
  | wrote found acts here payload sends =>
      subst acts
      obtain ⟨succeeds, quiet, fits⟩ := faithful _ _ found here
      obtain ⟨other, otherPayload, sizeWhole, -, wire⟩ := send_succeeds sends (succeeds _ sends)
      cases payload.symm.trans otherPayload
      have fits := fits _ payload
      rw [(counted.each i _ found).writes side _ here] at wire fits
      simp only [Channel.framesOf, sizeWhole, succeeds _ sends, if_true, Bool.false_eq_true,
        if_false]
      exact (carrying i _ found side).write (congrArg (List.take 89) wire)
        (congrArg (List.drop 89) wire) quiet fits
  | read found acts here receives =>
      subst acts
      rw [(counted.each i _ found).reads side.other _ here, Side.other_other] at receives
      have carries := carrying i _ found side
      rw [← Side.other_other side] at carries
      obtain ⟨answer, answers, kept, -⟩ := (faithful _ found).receives lawful carries _
      rw [Side.other_other] at answers kept
      cases receives.symm.trans answers
      exact kept

theorem carrying_of_faithful (lawful : crypto.Lawful) {actions : List Action}
    (run : Transitions.Run (step crypto) (Faithful crypto) .start actions network) :
    network.Counted ∧ network.Carrying crypto := by
  have initial : Network.start.Counted ∧ Network.start.Carrying crypto :=
    ⟨counted_start, fun i connection found => by cases found⟩
  have preserved : ∀ first action next, first.Counted ∧ first.Carrying crypto →
      Faithful crypto first action → step crypto first action = some next →
      next.Counted ∧ next.Carrying crypto := by
    rintro first action next ⟨counted, carrying⟩ faithful steps
    exact ⟨counted.step crypto steps, carrying.step lawful counted faithful steps⟩
  exact run.invariant preserved initial

/-- What comes in at an end of a connection. -/
structure Connection.InStep (crypto : CryptoPP) (counters : Place → Counters)
    (connection : Connection) (side : Side) : Prop where
  /-- The payloads delivered are the first ones sent. -/
  ordered : (connection.channel side.other).delivered <+: (connection.channel side.other).sent
  /-- The counters of two open ends are apart by the messages in flight, and the
  receiver's is not ahead before the sender's has wrapped around. -/
  counts : ∀ sender receiver, connection.place side.other = some sender →
    connection.place side = some receiver →
    (counters sender).writes - (counters receiver).reads =
        .ofNat (connection.channel side.other).inFlight ∧
      ((connection.channel side.other).sent.length < 2 ^ 31 →
        (counters receiver).reads ≤ (counters sender).writes ∧
          (counters sender).writes.toInt - (counters receiver).reads.toInt =
            (connection.channel side.other).inFlight)
  /-- The next message is accepted; without one, nothing happens. -/
  accepts : ∀ receiver reads callback, connection.place side = some receiver →
    connection.Hands side reads →
    ∃ received, recv crypto packetLimit callback (counters receiver).reads reads = some received ∧
      ((∃ payload, (connection.channel side.other).sent[
          (connection.channel side.other).delivered.length]? = some payload ∧
          received.delivered = [payload] ∧ received.result = callback payload) ∨
        (connection.channel side.other).inFlight = 0 ∧ received.delivered = [] ∧
          (received.result = 0 ∨ received.result = -2))

/-- Every connection of a faithful run is in lock step, at both ends. -/
theorem inStep_of_faithful (lawful : crypto.Lawful) {actions : List Action}
    (run : Transitions.Run (step crypto) (Faithful crypto) .start actions network) {i : Nat}
    {connection : Connection} (found : network.connections[i]? = some connection) (side : Side) :
    connection.InStep crypto network.counters side := by
  obtain ⟨counted, carrying⟩ := carrying_of_faithful lawful run
  have counts := counted.each i connection found
  have carries := carrying i connection found side.other
  obtain ⟨texts, sent, -⟩ := carries.pending
  refine ⟨⟨texts, sent.symm⟩, ?_, ?_⟩
  · intro sender receiver sends receives
    have inFlight := carries.inFlight_eq
    have behind : (connection.channel side.other).delivered.length ≤
        (connection.channel side.other).sent.length := by
      rw [sent, List.length_append]
      exact Nat.le_add_right _ _
    rw [counts.writes side.other sender sends, counts.reads side receiver receives, inFlight]
    refine ⟨(Int32.ofNat_sub _ _ behind).symm, fun small => ?_⟩
    rw [Int32.le_iff_toInt_le, Int32.toInt_ofNat_of_lt small,
      Int32.toInt_ofNat_of_lt (Nat.lt_of_le_of_lt behind small)]
    omega
  · intro receiver reads callback receives hands
    rw [counts.reads side receiver receives]
    obtain ⟨received, answers, -, outcome⟩ := hands.receives lawful carries callback
    exact ⟨received, answers, outcome⟩

end Runs

/-- A greeting on its way to the server. -/
theorem inStep_of_faithful_greeting :
    ∃ network connection, Transitions.Run (step SymmetricEncryptor.Sample.crypto)
        (Faithful SymmetricEncryptor.Sample.crypto) .start Sample.greets network ∧
      network.connections[0]? = some connection ∧
      (connection.channel .client).inFlight = 1 ∧
      connection.InStep SymmetricEncryptor.Sample.crypto network.counters .server := by
  have lawful := SymmetricEncryptor.Sample.crypto_lawful
  obtain ⟨first, second, third, connection, connects, accepts, sends, writes, ⟨before, only, here⟩,
    after, -, channel, -⟩ := Sample.exists_greeted
  have faithful : Faithful SymmetricEncryptor.Sample.crypto second
      (.send 0 .client Sample.greetingMemory (fun _ => 0) (some 89) (some 65) 3) := by
    intro connection place found uses
    rw [only] at found
    cases found
    cases here.symm.trans uses
    rw [writes]
    refine ⟨?_, by decide +kernel, ?_⟩
    · intro sent other
      cases Sample.send_greeting.symm.trans other
      rfl
    · intro text read
      cases Sample.string_greetingMemory.symm.trans read
      rw [Sample.length_greeting]
      decide
  have run : Transitions.Run (step SymmetricEncryptor.Sample.crypto)
      (Faithful SymmetricEncryptor.Sample.crypto) .start Sample.greets third :=
    .cons trivial connects (.cons trivial accepts (.cons faithful sends (.nil _)))
  have found : third.connections[0]? = some connection := by rw [after]; rfl
  refine ⟨third, connection, run, found, ?_, inStep_of_faithful lawful run found .server⟩
  rw [channel]
  rfl

namespace Sample

open SymmetricEncryptor.Sample

/-- A faithful run has led to one connection, with so many greetings sent by
the client and delivered to the server. -/
structure Exchanged (sent delivered : Nat) (network : Network) : Prop where
  run : ∃ actions, Transitions.Run (step crypto) (Faithful crypto) .start actions network
  connected : ∃ connection, network.connections = [connection] ∧
    (∀ side, connection.place side = some (place side)) ∧
    (connection.channel .client).sent.length = sent ∧
    (connection.channel .client).delivered.length = delivered

variable {network : Network} {sent delivered : Nat}

theorem exists_exchanged_zero : ∃ network, Exchanged 0 0 network := by
  let first : Network := ⟨Function.update (fun _ => ⟨0, 0⟩) (place .client) ⟨0, 0⟩,
    [.new (place .client)]⟩
  have connects : step crypto .start (.connect (place .client)) = some first := rfl
  have accepts : ∃ second, step crypto first (.accept 0 (place .server)) = some second ∧
      ∃ connection, second.connections = [connection] ∧
        (∀ side, connection.place side = some (place side)) ∧
        connection.channel .client = .empty :=
    ⟨_, rfl, _, rfl, fun side => by cases side <;> rfl, rfl⟩
  obtain ⟨second, accepts, connection, only, places, silent⟩ := accepts
  refine ⟨second, ⟨[.connect (place .client), .accept 0 (place .server)],
    .cons trivial connects (.cons trivial accepts (.nil _))⟩, connection, only, places, ?_, ?_⟩
  · rw [silent]
    rfl
  · rw [silent]
    rfl

/-- The client sends one more. -/
theorem Exchanged.send (exchanged : Exchanged sent delivered network) :
    ∃ next, Exchanged (sent + 1) delivered next := by
  obtain ⟨⟨actions, run⟩, connection, only, places, sentLength, deliveredLength⟩ := exchanged
  have found : network.connections[0]? = some connection := by rw [only]; rfl
  have held := Memory.holdsString_of_string string_greetingMemory
  have sends := send_complete crypto (fun _ => 0) held (network.counters (place .client)).writes
  rw [length_greeting] at sends
  have faithful : Faithful crypto network
      (.send 0 .client greetingMemory (fun _ => 0) (some 89) (some 65) 3) := by
    intro other used there uses
    cases found.symm.trans there
    cases (places .client).symm.trans uses
    refine ⟨?_, by decide +kernel, ?_⟩
    · intro result returns
      cases sends.symm.trans returns
      rfl
    · intro text read
      cases string_greetingMemory.symm.trans read
      rw [length_greeting]
      decide
  have steps := step_send crypto found (places .client) string_greetingMemory sends
  rw [only] at steps
  refine ⟨_, ⟨_, run.append (.single faithful steps)⟩, _, rfl, places, ?_, ?_⟩
  · simp [Channel.write, sentLength]
  · simp [Channel.write, deliveredLength]

/-- The server receives the only one on its way. -/
theorem Exchanged.recv (exchanged : Exchanged (delivered + 1) delivered network) :
    ∃ next, Exchanged (delivered + 1) (delivered + 1) next := by
  obtain ⟨⟨actions, run⟩, connection, only, places, sentLength, deliveredLength⟩ := exchanged
  have found : network.connections[0]? = some connection := by rw [only]; rfl
  obtain ⟨counted, carrying⟩ := carrying_of_faithful crypto_lawful run
  have counts := (counted.each 0 connection found).reads .server _ (places .server)
  have carries := carrying 0 connection found .client
  have two : ((connection.channel .client).frames.drop (connection.channel .client).taken).length =
      2 := by
    rw [List.length_drop, carries.frames, carries.taken, sentLength, deliveredLength]
    omega
  obtain ⟨size, block, next⟩ := List.length_eq_two.mp two
  have hands : connection.Hands .server
      (.received size.data :: (List.replicate 0 .wouldBlock ++ [.received block.data])) :=
    .message 0 next
  obtain ⟨received, receives, -, outcome⟩ :=
    hands.receives crypto_lawful carries fun _ => 1
  rw [← counts] at receives
  have one : received.delivered.length = 1 := by
    rcases outcome with ⟨payload, -, single, -⟩ | ⟨none, -⟩
    · rw [single]
      rfl
    · change (connection.channel .client).inFlight = 0 at none
      rw [carries.inFlight_eq, sentLength, deliveredLength] at none
      omega
  have faithful : Faithful crypto network (.recv 0 .server
      (.received size.data :: (List.replicate 0 .wouldBlock ++ [.received block.data]))
      fun _ => 1) := by
    intro other there
    cases found.symm.trans there
    exact hands
  have steps := step_recv crypto found (places .server) receives
  rw [only] at steps
  refine ⟨_, ⟨_, run.append (.single faithful steps)⟩, _, rfl, places, ?_, ?_⟩
  · simp [Channel.read, Side.other, sentLength]
  · simp [Channel.read, Side.other, deliveredLength, one]

theorem exists_exchanged (number : Nat) : ∃ network, Exchanged number number network := by
  induction number with
  | zero => exact exists_exchanged_zero
  | succ number ih =>
      obtain ⟨network, exchanged⟩ := ih
      obtain ⟨middle, sent⟩ := exchanged.send
      exact sent.recv

end Sample

/-- Behind 2^31 - 1 greetings sent and received one more is sent, and the
receiver's counter is the largest `int`, the sender's the smallest. -/
theorem exists_ahead_wrapped : ∃ actions network connection,
    Transitions.Run (step SymmetricEncryptor.Sample.crypto)
      (Faithful SymmetricEncryptor.Sample.crypto) .start actions network ∧
    network.connections[0]? = some connection ∧
    connection.place .client = some (Sample.place .client) ∧
    connection.place .server = some (Sample.place .server) ∧
    (connection.channel .client).inFlight = 1 ∧
    (network.counters (Sample.place .client)).writes = -2147483648 ∧
    (network.counters (Sample.place .server)).reads = 2147483647 ∧
    ¬ (network.counters (Sample.place .server)).reads ≤
      (network.counters (Sample.place .client)).writes := by
  obtain ⟨before, exchanged⟩ := Sample.exists_exchanged 2147483647
  obtain ⟨network, ⟨actions, run⟩, connection, only, places, sent, delivered⟩ := exchanged.send
  have found : network.connections[0]? = some connection := by rw [only]; rfl
  obtain ⟨counted, carrying⟩ := carrying_of_faithful SymmetricEncryptor.Sample.crypto_lawful run
  have writes := (counted.each 0 connection found).writes .client _ (places .client)
  have reads := (counted.each 0 connection found).reads .server _ (places .server)
  rw [sent] at writes
  rw [Side.other, delivered] at reads
  refine ⟨actions, network, connection, run, found, places .client, places .server, ?_, writes,
    reads, ?_⟩
  · rw [(carrying 0 connection found .client).inFlight_eq, sent, delivered]
  · rw [writes, reads]
    decide

end Symmetric

end Libjaypea
