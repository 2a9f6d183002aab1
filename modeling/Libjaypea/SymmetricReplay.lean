import Libjaypea.SymmetricNetwork

/-!
# What an adversary on the network can have delivered

The adversary hands every call of `recv` what it likes, as long as whatever
decrypts is a whole frame that some end wrote.  A payload that gets through was
then passed to `send` by some end on some connection, under a number with the
byte of the reader's; it need not be the right end, connection or number.  It is
the right number when only frames of the same direction are handed over, and
none from 255 or more messages away.
-/

namespace Libjaypea

namespace Symmetric

open SymmetricEncryptor

/-- The frame was written in the channel, which is one of the network. -/
def Network.Wrote (network : Network) (channel : Channel) (frame : Frame) : Prop :=
  frame ∈ channel.frames ∧ ∃ (i : Nat) (connection : Connection) (side : Side),
    network.connections[i]? = some connection ∧ connection.channel side = channel

/-- What the reads return is any garbage and frames as they were written; the
length of a block fits its 32 bits. -/
def Unforged (crypto : CryptoPP) (network : Network) : Action → Prop
  | .connect _ => True
  | .accept _ _ => True
  | .send _ _ data _ _ _ fuel => ∀ text transaction, data.string fuel 1 = some text →
      (encryptTransaction crypto text transaction).length < 2 ^ 32
  | .recv _ _ reads _ => ∀ data plain, .received data ∈ reads → decrypt crypto data = some plain →
      ∃ channel frame, network.Wrote channel frame ∧ frame.data = data ∧ frame.plain = plain
  | .close _ _ => True

/-- The end is only handed frames that its peer wrote on the same connection,
with numbers less than 255 away from that of the next message. -/
def Direct (crypto : CryptoPP) (i : Nat) (side : Side) (network : Network) : Action → Prop
  | .recv j one reads _ => j = i → one = side →
      ∀ connection, network.connections[i]? = some connection →
        ∀ data plain, .received data ∈ reads → decrypt crypto data = some plain →
          ∃ frame ∈ (connection.channel side.other).frames, frame.data = data ∧
            frame.plain = plain ∧
            ((frame.position : Int) - (connection.channel side.other).delivered.length).natAbs <
              255
  | _ => True

/-- The frame is one of the two of a message sent in the channel. -/
def Channel.Made (crypto : CryptoPP) (channel : Channel) (frame : Frame) : Prop :=
  frame.transaction = .ofNat frame.position ∧ ∃ text : Bytes,
    channel.sent[frame.position]? = some text ∧
    (encryptTransaction crypto text frame.transaction).length < 2 ^ 32 ∧
    (frame.data.length = 89 ∧
        frame.text = uint32Bytes (encryptTransaction crypto text frame.transaction).length ∨
      frame.data = encryptTransaction crypto text frame.transaction ∧ frame.text = text)

def Network.Honest (crypto : CryptoPP) (network : Network) : Prop :=
  ∀ (i : Nat) (connection : Connection), network.connections[i]? = some connection →
    ∀ side, ∀ frame ∈ (connection.channel side).frames,
      (connection.channel side).Made crypto frame

section Recv

variable {crypto : CryptoPP} {transaction : Int32}

/-- No block has the length of a size frame. -/
theorem encryptTransaction_length_ne_size (lawful : crypto.Lawful) (text : Bytes) :
    (encryptTransaction crypto text transaction).length ≠ 89 := by
  unfold encryptTransaction
  rw [encrypt_length lawful]
  omega

theorem decryptTransaction_eq_some {data payload : Bytes}
    (decrypts : decryptTransaction crypto data transaction = some payload) :
    ∃ plain, decrypt crypto data = some plain ∧ plain.headD 0 = transactionByte transaction ∧
      payload = plain.drop 1 := by
  obtain ⟨plain, found, rest⟩ := Option.bind_eq_some_iff.mp decrypts
  split_ifs at rest with head
  cases rest
  exact ⟨plain, found, not_not.mp head, rfl⟩

/-- Whatever gets through was sent under a number with the byte of the reader's:
a size frame is told from a block by its length. -/
theorem recv_delivers (lawful : crypto.Lawful) (Known : Channel → Frame → Prop)
    (made : ∀ channel frame, Known channel frame → channel.Made crypto frame)
    {dataLength : Nat} {callback : Bytes → Int} {reads : List Read} {received : Received}
    (known : ∀ data plain, .received data ∈ reads → decrypt crypto data = some plain →
      ∃ channel frame, Known channel frame ∧ frame.data = data ∧ frame.plain = plain)
    (receives : recv crypto dataLength callback transaction reads = some received) :
    received.delivered = [] ∨ ∃ (channel : Channel) (frame : Frame) (payload : Bytes),
      Known channel frame ∧ channel.sent[frame.position]? = some payload ∧
      transactionByte (.ofNat frame.position) = transactionByte transaction ∧
      received.delivered = [payload] := by
  rcases recv_effect receives with ⟨nothing, -⟩ | ⟨size, block, sizeData, payload, sizeMember,
    blockMember, sizeLength, sizeDecrypts, blockLength, blockDecrypts, delivered, -⟩
  · exact .inl nothing
  obtain ⟨sizePlain, sizeFound, -, rfl⟩ := decryptTransaction_eq_some sizeDecrypts
  obtain ⟨blockPlain, blockFound, head, rfl⟩ := decryptTransaction_eq_some blockDecrypts
  obtain ⟨first, sizeFrame, sizeKnown, rfl, rfl⟩ := known size sizePlain sizeMember sizeFound
  obtain ⟨second, blockFrame, blockKnown, rfl, rfl⟩ :=
    known block blockPlain blockMember blockFound
  obtain ⟨-, sizeText, -, small, isSize | isBlock⟩ := made first sizeFrame sizeKnown
  · obtain ⟨numbered, text, sent, -, otherSize | isBlock⟩ := made second blockFrame blockKnown
    · have value : uint32Value (sizeFrame.plain.drop 1) =
          (encryptTransaction crypto sizeText sizeFrame.transaction).length := by
        rw [Frame.plain, List.drop_one, List.tail_cons, isSize.2, uint32Value_uint32Bytes small]
      rw [value, otherSize.1] at blockLength
      exact absurd blockLength.symm (encryptTransaction_length_ne_size lawful sizeText)
    · refine .inr ⟨second, blockFrame, text, blockKnown, sent, ?_, ?_⟩
      · rw [← numbered]
        exact head
      · rw [delivered, ← isBlock.2]
        rfl
  · rw [isBlock.1] at sizeLength
    exact absurd sizeLength (encryptTransaction_length_ne_size lawful _)

end Recv

theorem Channel.Made.write {crypto : CryptoPP} {channel : Channel} {frame : Frame}
    (made : channel.Made crypto frame) (text : Bytes) (frames : List Frame) :
    (channel.write text frames).Made crypto frame := by
  obtain ⟨numbered, payload, sent, rest⟩ := made
  refine ⟨numbered, payload, ?_, rest⟩
  have inside := (List.getElem?_eq_some_iff.mp sent).1
  exact (List.getElem?_append_left inside).trans sent

/-- The frames of a call of `send` are those of the payload that it adds. -/
theorem Channel.made_framesOf {crypto : CryptoPP} {channel : Channel} {data stale : Memory}
    {text : Bytes} {sizeWrite blockWrite : Option Nat} {fuel : Nat} {sent : Sent}
    (payload : data.string fuel 1 = some text)
    (small : (encryptTransaction crypto text (.ofNat channel.sent.length)).length < 2 ^ 32)
    (sends : SymmetricEncryptor.send crypto data stale (.ofNat channel.sent.length) sizeWrite
      blockWrite fuel = some sent) {frames : List Frame} :
    ∀ frame ∈ channel.framesOf crypto text (.ofNat channel.sent.length) sizeWrite sent,
      (channel.write text frames).Made crypto frame := by
  intro frame member
  have last : (channel.write text frames).sent[channel.sent.length]? = some text := by
    simp [Channel.write]
  have size : sizeWrite = some 89 → (channel.write text frames).Made crypto
      ⟨sent.wire.take 89,
        uint32Bytes (encryptTransaction crypto text (.ofNat channel.sent.length)).length,
        .ofNat channel.sent.length, channel.sent.length⟩ := by
    intro whole
    refine ⟨rfl, text, last, small, .inl ⟨?_, rfl⟩⟩
    unfold SymmetricEncryptor.send at sends
    obtain ⟨_, _, rfl⟩ := Option.map_eq_some_iff.mp sends
    cases blockWrite with
    | none => simp [whole]
    | some len => simp [whole]
  unfold framesOf at member
  dsimp only at member
  split_ifs at member with whole failed
  · cases List.mem_singleton.mp member
    exact size whole
  · rcases List.mem_cons.mp member with rfl | member
    · exact size whole
    · cases List.mem_singleton.mp member
      refine ⟨rfl, text, last, small, .inr ⟨?_, rfl⟩⟩
      obtain ⟨other, read, -, -, wire⟩ := send_succeeds sends (Bool.not_eq_true _ ▸ failed)
      cases payload.symm.trans read
      rw [wire]
      exact fullWire_drop crypto stale text _
  · cases member

section Runs

variable {crypto : CryptoPP} {network next : Network} {action : Action}

theorem Network.Honest.step (counted : network.Counted) (honest : network.Honest crypto)
    (unforged : Unforged crypto network action) (steps : step crypto network action = some next) :
    next.Honest crypto := by
  intro i connection there side
  have effect := effect_of_step crypto steps there side
  generalize connection.channel side = channel at effect
  cases effect with
  | new fresh =>
      intro frame member
      cases member
  | same found => exact honest i _ found side
  | @wrote old place data stale sizeWrite blockWrite fuel text sent found acts here payload sends =>
      subst acts
      have small := unforged text (network.counters place).writes payload
      rw [(counted.each i _ found).writes side _ here] at sends small ⊢
      intro frame member
      rcases List.mem_append.mp member with old | new
      · exact (honest i _ found side frame old).write _ _
      · exact Channel.made_framesOf payload small sends frame new
  | read found acts here receives =>
      intro frame member
      exact honest i _ found side frame member

/-- The numbers of two messages have the same byte. -/
def Alike (first second : Nat) : Prop :=
  transactionByte (.ofNat first) = transactionByte (.ofNat second)

/-- Every payload delivered was sent somewhere, under a number with the byte of
its place among those delivered: the two agree modulo 255, unless one of them is
beyond an `int`. -/
def Network.Traced (network : Network) : Prop :=
  ∀ (i : Nat) (connection : Connection) (side : Side) (k : Nat) (payload : Bytes),
    network.connections[i]? = some connection →
    (connection.channel side).delivered[k]? = some payload →
    ∃ (j : Nat) (other : Connection) (sender : Side) (position : Nat),
      network.connections[j]? = some other ∧
      (other.channel sender).sent[position]? = some payload ∧ Alike position k ∧
      (position < 2 ^ 31 → k < 2 ^ 31 → position % 255 = k % 255)

/-- A payload that was sent stays in its place. -/
theorem sent_remains (steps : step crypto network action = some next) {j : Nat}
    {other : Connection} (found : network.connections[j]? = some other) {sender : Side}
    {position : Nat} {payload : Bytes}
    (sent : (other.channel sender).sent[position]? = some payload) :
    ∃ after : Connection, next.connections[j]? = some after ∧
      (after.channel sender).sent[position]? = some payload := by
  obtain ⟨after, there, grows⟩ := sent_of_step crypto steps found
  obtain ⟨rest, equal⟩ := grows sender
  have inside := (List.getElem?_eq_some_iff.mp sent).1
  refine ⟨after, there, ?_⟩
  rw [← equal, List.getElem?_append_left inside, sent]

theorem Network.Traced.step (lawful : crypto.Lawful) (counted : network.Counted)
    (honest : network.Honest crypto) (traced : network.Traced)
    (unforged : Unforged crypto network action) (steps : step crypto network action = some next) :
    next.Traced := by
  have kept : ∀ (i : Nat) (old : Connection) (side : Side) (k : Nat) (payload : Bytes),
      network.connections[i]? = some old → (old.channel side).delivered[k]? = some payload →
      ∃ (j : Nat) (other : Connection) (sender : Side) (position : Nat),
        next.connections[j]? = some other ∧
        (other.channel sender).sent[position]? = some payload ∧ Alike position k ∧
        (position < 2 ^ 31 → k < 2 ^ 31 → position % 255 = k % 255) := by
    intro i old side k payload found delivered
    obtain ⟨j, other, sender, position, there, sent, agrees⟩ :=
      traced i old side k payload found delivered
    obtain ⟨after, there, sent⟩ := sent_remains steps there sent
    exact ⟨j, after, sender, position, there, sent, agrees⟩
  intro i connection side k payload there delivered
  have effect := effect_of_step crypto steps there side
  generalize connection.channel side = channel at effect delivered
  cases effect with
  | new fresh => cases delivered
  | same found => exact kept i _ side k payload found delivered
  | wrote found acts here read sends => exact kept i _ side k payload found delivered
  | @read old place reads callback received found acts here receives =>
      subst acts
      rw [(counted.each i old found).reads side.other place here, Side.other_other] at receives
      rcases Nat.lt_or_ge k (old.channel side).delivered.length with early | late
      · have before : (old.channel side).delivered[k]? = some payload := by
          rw [← delivered]
          exact (List.getElem?_append_left early).symm
        exact kept i old side k payload found before
      · have arrived : received.delivered[k - (old.channel side).delivered.length]? =
            some payload := by
          rw [← delivered]
          exact (List.getElem?_append_right late).symm
        have made : ∀ channel frame, network.Wrote channel frame → channel.Made crypto frame := by
          rintro _ frame ⟨member, j, other, sender, there, rfl⟩
          exact honest j other there sender frame member
        rcases recv_delivers lawful network.Wrote made unforged receives with
          nothing | ⟨_, frame, text, ⟨-, j, other, sender, there, rfl⟩, sent, alike, single⟩
        · rw [nothing] at arrived
          cases arrived
        · rw [single, List.getElem?_singleton] at arrived
          split at arrived
          · rename_i last
            cases arrived
            obtain ⟨after, there, sent⟩ := sent_remains steps there sent
            have here : k = (old.channel side).delivered.length := by omega
            subst here
            exact ⟨j, after, sender, frame.position, there, sent, alike,
              fun firstSmall small => mod_eq_of_transactionByte_eq firstSmall small alike⟩
          · cases arrived

/-- What comes in at the end was sent in that place of its connection. -/
def Network.Ordered (i : Nat) (side : Side) (network : Network) : Prop :=
  ∀ connection, network.connections[i]? = some connection →
    (connection.channel side.other).delivered <+: (connection.channel side.other).sent

theorem Network.Ordered.step (lawful : crypto.Lawful) (counted : network.Counted)
    (honest : network.Honest crypto) {i : Nat} {side : Side} (ordered : network.Ordered i side)
    (direct : Direct crypto i side network action)
    (steps : step crypto network action = some next) : next.Ordered i side := by
  intro connection there
  have effect := effect_of_step crypto steps there side.other
  generalize connection.channel side.other = channel at effect
  cases effect with
  | new fresh => exact List.prefix_rfl
  | same found => exact ordered _ found
  | wrote found acts here payload sends => exact (ordered _ found).trans (List.prefix_append _ _)
  | @read old place reads callback received found acts here receives =>
      subst acts
      rw [Side.other_other] at direct here
      rw [(counted.each i old found).reads side place here] at receives
      let number := (old.channel side.other).delivered.length
      let Near (channel : Channel) (frame : Frame) : Prop :=
        channel = old.channel side.other ∧ frame ∈ channel.frames ∧
          ((frame.position : Int) - number).natAbs < 255
      have made : ∀ channel frame, Near channel frame → channel.Made crypto frame := by
        rintro _ frame ⟨rfl, member, -⟩
        exact honest i old found side.other frame member
      have known : ∀ data plain, .received data ∈ reads → decrypt crypto data = some plain →
          ∃ channel frame, Near channel frame ∧ frame.data = data ∧ frame.plain = plain := by
        intro data plain member decrypts
        obtain ⟨frame, written, sameData, samePlain, near⟩ :=
          direct rfl rfl old found data plain member decrypts
        exact ⟨_, frame, ⟨rfl, written, near⟩, sameData, samePlain⟩
      rcases recv_delivers lawful Near made known receives with
        nothing | ⟨_, frame, payload, ⟨rfl, -, near⟩, sent, alike, single⟩
      · rw [nothing, Channel.read]
        simpa using ordered old found
      · have same : frame.position = number := eq_of_transactionByte_eq near alike
        obtain ⟨rest, equal⟩ := ordered old found
        rw [same, ← equal, List.getElem?_append_right (Nat.le_refl _), Nat.sub_self] at sent
        cases rest with
        | nil => cases sent
        | cons first rest =>
            cases sent
            rw [single]
            exact ⟨rest, by simpa [Channel.read] using equal⟩

end Runs

namespace Sample

open SymmetricEncryptor.Sample

/-- The frames of the greeting as `recv` reads them. -/
def handed : List Read :=
  [.received (wire.take 89), .received (wire.drop 89)]

/-- The greeting, handed to an end of the connection. -/
def hands (side : Side) : List Action :=
  greets ++ [.recv 0 side handed fun _ => 1]

end Sample

end Symmetric

end Libjaypea
