import Libjaypea.SymmetricEncryptor

/-!
# What the symmetric transport delivers

`send` writes 89 bytes of a size frame that has 65, so that 24 bytes of the
memory behind it follow on the wire.  A payload still arrives when these bytes
are outside the Base64 alphabet, the payload is free of zeros and its block is
below the limit of the receiver.
-/

namespace Libjaypea

namespace SymmetricEncryptor

def frames (crypto : CryptoPP) (text : Bytes) (transaction : Int32) : Bytes :=
  sizeFrame crypto (encryptTransaction crypto text transaction) transaction ++
    encryptTransaction crypto text transaction

/-- The bytes of a `send` whose two writes both take all they are given. -/
def fullWire (crypto : CryptoPP) (stale : Memory) (text : Bytes) (transaction : Int32) : Bytes :=
  (Memory.ofString stale
      (sizeFrame crypto (encryptTransaction crypto text transaction) transaction)).bytesAt 1 89 ++
    encryptTransaction crypto text transaction

/-- When `send` reports success, `recv` delivers the payload once and nothing
but the two frames is on the wire. -/
def Transports (crypto : CryptoPP) (data stale : Memory) (payload : Bytes) (transaction : Int32)
    (sizeWrite blockWrite : Option Nat) : Prop :=
  ∀ fuel sent, send crypto data stale transaction sizeWrite blockWrite fuel = some sent →
    sent.failed = false →
      (∀ callback, ∃ received,
        recv crypto packetLimit callback transaction
            [.received (sent.wire.take 89), .received (sent.wire.drop 89)] = some received ∧
          received.delivered = [payload]) ∧
        ∀ text, data.string fuel 1 = some text → sent.wire = frames crypto text transaction

theorem fullWire_take (crypto : CryptoPP) (stale : Memory) (text : Bytes) (transaction : Int32) :
    (fullWire crypto stale text transaction).take 89 =
      (Memory.ofString stale
        (sizeFrame crypto (encryptTransaction crypto text transaction) transaction)).bytesAt 1 89 :=
  List.take_left' (Memory.bytesAt_length _ 1 89)

theorem fullWire_drop (crypto : CryptoPP) (stale : Memory) (text : Bytes) (transaction : Int32) :
    (fullWire crypto stale text transaction).drop 89 = encryptTransaction crypto text transaction :=
  List.drop_left' (Memory.bytesAt_length _ 1 89)

theorem send_complete (crypto : CryptoPP) {data : Memory} (stale : Memory) {text : Bytes}
    (held : data.HoldsString 1 text) (transaction : Int32) :
    send crypto data stale transaction (some 89)
        (some (encryptTransaction crypto text transaction).length) (text.length + 1) =
      some ⟨false, transaction + 1, fullWire crypto stale text transaction⟩ := by
  simp [send, Memory.string_of_holdsString held, fullWire]

theorem send_succeeds {crypto : CryptoPP} {data stale : Memory} {transaction : Int32}
    {sizeWrite blockWrite : Option Nat} {fuel : Nat} {sent : Sent}
    (sends : send crypto data stale transaction sizeWrite blockWrite fuel = some sent)
    (succeeds : sent.failed = false) :
    ∃ text, data.string fuel 1 = some text ∧ sizeWrite = some 89 ∧
      blockWrite = some (encryptTransaction crypto text transaction).length ∧
        sent.wire = fullWire crypto stale text transaction := by
  unfold send at sends
  rw [Option.map_eq_some_iff] at sends
  obtain ⟨text, read, rfl⟩ := sends
  dsimp only at succeeds ⊢
  refine ⟨text, read, ?_⟩
  cases sizeWrite with
  | none => cases succeeds
  | some len =>
      by_cases whole : len = 89
      · subst whole
        cases blockWrite with
        | none => simp at succeeds
        | some len =>
            have all : len = (encryptTransaction crypto text transaction).length := by
              simpa using succeeds
            simp [all, fullWire]
      · simp [whole] at succeeds

theorem send_transaction {crypto : CryptoPP} {data stale : Memory} {transaction : Int32}
    {sizeWrite blockWrite : Option Nat} {fuel : Nat} {sent : Sent}
    (sends : send crypto data stale transaction sizeWrite blockWrite fuel =
      some sent) : sent.transaction = transaction + 1 := by
  unfold send at sends
  obtain ⟨text, -, rfl⟩ := Option.map_eq_some_iff.mp sends
  dsimp only
  split
  · rfl
  · split
    · rfl
    · split <;> rfl

/-- The 24 bytes too many are always there. -/
theorem fullWire_ne_frames {crypto : CryptoPP} (lawful : crypto.Lawful) (stale : Memory)
    (text : Bytes) (transaction : Int32) :
    fullWire crypto stale text transaction ≠ frames crypto text transaction := by
  intro same
  have lengths := congrArg List.length same
  simp only [fullWire, frames, List.length_append, Memory.bytesAt_length,
    sizeFrame_length lawful] at lengths
  omega

namespace Sample

def padded (data : Bytes) : Bytes :=
  data ++ List.replicate (16 - data.length % 16) (UInt8.ofNat (16 - data.length % 16))

def unpadded (data : Bytes) : Option Bytes :=
  data.getLast?.bind fun last =>
    let text := data.take (data.length - last.toNat)
    if padded text = data then some text else none

/-- The transaction byte of the first message and `hi`. -/
def greeting : Bytes := [0, 104, 105]

def greetingCipher : Bytes :=
  [0x54, 0xd4, 0x30, 0x3a, 0xc2, 0xf8, 0xdb, 0x6b, 0x32, 0xd6, 0x36, 0xa3, 0x69, 0x72, 0xb5, 0x7c]

def greetingHash : Bytes :=
  [0x3e, 0x20, 0xce, 0x6c, 0xd9, 0x46, 0xd2, 0x57, 0x94, 0x03, 0x97, 0x04, 0x60, 0x00, 0x26, 0x20,
    0x43, 0x57, 0x56, 0x6b, 0x3b, 0x90, 0x9a, 0x44, 0x44, 0x43, 0x31, 0xd0, 0xc6, 0x9c, 0x07, 0x21]

/-- The transaction byte and the length of the greeting's block. -/
def greetingSize : Bytes := [0, 65, 0, 0, 0]

def sizeCipher : Bytes :=
  [0x81, 0x53, 0xbc, 0xe2, 0x9e, 0x8c, 0xec, 0xee, 0xd7, 0x8e, 0xf3, 0x10, 0xa5, 0x0e, 0xcc, 0xee]

def sizeHash : Bytes :=
  [0x3f, 0xfb, 0x30, 0x70, 0xe5, 0xb1, 0xc5, 0xa0, 0x87, 0xfa, 0x50, 0xc2, 0x01, 0xed, 0x9b, 0xd7,
    0x9d, 0x77, 0x7c, 0xf5, 0xca, 0x60, 0xab, 0x4a, 0xc4, 0x97, 0xda, 0x12, 0xc3, 0x6a, 0xf1, 0x6b]

/-- AES-256-CBC and HMAC-SHA256 under the key of `extras/keyfile` on the frames
of one greeting, and a stand-in on every other text. -/
def crypto : CryptoPP where
  cbcEncrypt data :=
    if data = greeting then greetingCipher else if data = greetingSize then sizeCipher
    else padded data
  cbcDecrypt data :=
    if data = greetingCipher then some greeting else if data = sizeCipher then some greetingSize
    else unpadded data
  hmac data :=
    if data = greetingCipher then greetingHash else if data = sizeCipher then sizeHash
    else List.replicate 32 0
  base64Encode := Base64.encode 72
  base64Decode := Base64.decode

example : encryptTransaction crypto (bytes "hi") 0 =
    bytes "PiDObNlG0leUA5cEYAAmIENXVms7kJpEREMx0MacByFU1DA6wvjbazLWNqNpcrV8\n" := by
  decide +kernel

example : sizeFrame crypto (encryptTransaction crypto (bytes "hi") 0) 0 =
    bytes "P/swcOWxxaCH+lDCAe2b1513fPXKYKtKxJfaEsNq8WuBU7zinozs7teO8xClDszu\n" := by
  decide +kernel

theorem padded_length (data : Bytes) : (padded data).length = 16 * (data.length / 16 + 1) := by
  simp only [padded, List.length_append, List.length_replicate]
  omega

theorem padded_getLast? (data : Bytes) :
    (padded data).getLast? = some (UInt8.ofNat (16 - data.length % 16)) := by
  have positive : 16 - data.length % 16 ≠ 0 := by omega
  simp [padded, List.getLast?_append, List.getLast?_replicate, positive]

theorem unpadded_padded (data : Bytes) : unpadded (padded data) = some data := by
  have count : (UInt8.ofNat (16 - data.length % 16)).toNat = 16 - data.length % 16 := by
    rw [UInt8.toNat_ofNat']
    omega
  have rest : (padded data).length - (16 - data.length % 16) = data.length := by
    rw [padded_length]
    omega
  have text : (padded data).take data.length = data := List.take_left' rfl
  unfold unpadded
  simp only [padded_getLast?, Option.bind_some, count, rest, text, if_true]

/-- The last byte of a padded text is at most sixteen. -/
theorem padded_ne (cipher : Bytes) (large : ∀ last ∈ cipher.getLast?, 16 < last.toNat)
    (data : Bytes) : padded data ≠ cipher := by
  intro same
  have member : UInt8.ofNat (16 - data.length % 16) ∈ cipher.getLast? := by
    rw [← same, padded_getLast?]
    rfl
  have bound := large _ member
  rw [UInt8.toNat_ofNat'] at bound
  omega

theorem crypto_lawful : crypto.Lawful where
  cbcEncrypt_length data := by
    dsimp only [crypto]
    split
    · rename_i known
      rw [known]
      rfl
    · split
      · rename_i known
        rw [known]
        rfl
      · exact padded_length data
  cbcDecrypt_cbcEncrypt data := by
    have notGreeting := padded_ne greetingCipher (by decide +kernel) data
    have notSize := padded_ne sizeCipher (by decide +kernel) data
    dsimp only [crypto]
    split
    · rename_i known
      rw [if_pos rfl, known]
    · split
      · rename_i known
        rw [known]
        rfl
      · exact unpadded_padded data
  hmac_length data := by
    dsimp only [crypto]
    split
    · rfl
    · split
      · rfl
      · exact List.length_replicate
  base64Encode_length data nonempty := Base64.encode_length (by decide) nonempty
  base64Decode_base64Encode := Base64.decode_encode 72
  base64Decode_filter := Base64.decode_filter

def greetingMemory : Memory :=
  Memory.ofString (fun _ => 0) (bytes "hi")

def wire : Bytes :=
  fullWire crypto (fun _ => 0) (bytes "hi") 0

theorem string_greetingMemory : greetingMemory.string 3 1 = some (bytes "hi") :=
  Memory.string_of_holdsString ⟨Memory.ofString_holds _ _, by decide⟩

theorem length_greeting (transaction : Int32) :
    (encryptTransaction crypto (bytes "hi") transaction).length = 65 := by
  have three : (transactionByte transaction :: bytes "hi").length = 3 := rfl
  unfold encryptTransaction
  rw [encrypt_length crypto_lawful, three]

theorem send_greeting : send crypto greetingMemory (fun _ => 0) 0 (some 89)
    (some 65) 3 = some ⟨false, 1, wire⟩ := by
  have sends := send_complete crypto (fun _ => 0)
    (Memory.holdsString_of_string string_greetingMemory) 0
  rw [length_greeting] at sends
  exact sends

end Sample

/-- The transport keeps its promise only where it makes none: on a `send` one
of whose writes fails or is short. -/
theorem transports_iff {crypto : CryptoPP} (lawful : crypto.Lawful) (data stale : Memory)
    (payload : Bytes) (transaction : Int32) (sizeWrite blockWrite : Option Nat) :
    Transports crypto data stale payload transaction sizeWrite blockWrite ↔
      ¬ ∃ text, data.HoldsString 1 text ∧ sizeWrite = some 89 ∧
        blockWrite = some (encryptTransaction crypto text transaction).length := by
  constructor
  · rintro transports ⟨text, held, rfl, rfl⟩
    have read := Memory.string_of_holdsString held
    have onWire := (transports _ _ (send_complete crypto stale held transaction) rfl).2 text read
    exact fullWire_ne_frames lawful stale text transaction onWire
  · intro incomplete fuel sent sends succeeds
    obtain ⟨text, read, sizeWhole, blockWhole, -⟩ := send_succeeds sends succeeds
    exact absurd ⟨text, Memory.holdsString_of_string read, sizeWhole, blockWhole⟩ incomplete

/-- A greeting whose size frame is cut short by the system is reported as failed. -/
theorem transports_iff_shortWrite :
    Sample.crypto.Lawful ∧
      Transports Sample.crypto (Memory.ofString (fun _ => 0) (bytes "hi")) (fun _ => 0)
        (bytes "hi") 0 (some 40) (some 65) := by
  apply And.intro Sample.crypto_lawful
  rw [transports_iff Sample.crypto_lawful]
  rintro ⟨text, -, whole, -⟩
  cases whole

/-- The greeting is sent in full, and is not transported. -/
theorem not_transports_greeting :
    Sample.crypto.Lawful ∧
      (Memory.ofString (fun _ => 0) (bytes "hi")).HoldsString 1 (bytes "hi") ∧
      (send Sample.crypto (Memory.ofString (fun _ => 0) (bytes "hi")) (fun _ => 0) 0
          (some 89) (some 65) 3).map (fun sent => sent.failed) = some false ∧
      ¬ Transports Sample.crypto (Memory.ofString (fun _ => 0) (bytes "hi")) (fun _ => 0)
          (bytes "hi") 0 (some 89) (some 65) := by
  have held : (Memory.ofString (fun _ => 0) (bytes "hi")).HoldsString 1 (bytes "hi") :=
    ⟨Memory.ofString_holds _ _, by decide⟩
  have length : (encryptTransaction Sample.crypto (bytes "hi") 0).length = 65 :=
    encrypt_length Sample.crypto_lawful _
  have sends := send_complete Sample.crypto (fun _ => 0) held 0
  rw [length] at sends
  refine ⟨Sample.crypto_lawful, held, ?_, ?_⟩
  · have fuel : (bytes "hi").length + 1 = 3 := rfl
    rw [fuel] at sends
    rw [sends]
    rfl
  · intro transports
    have onWire := (transports _ _ sends rfl).2 _ (Memory.string_of_holdsString held)
    exact fullWire_ne_frames Sample.crypto_lawful _ _ _ onWire

theorem uint32Value_uint32Bytes {number : Nat} (small : number < 2 ^ 32) :
    uint32Value (uint32Bytes number) = number := by
  simp only [uint32Value, uint32Bytes, List.foldr_cons, List.foldr_nil, UInt8.toNat_ofNat']
  omega

/-- A size frame that decrypts leads to the block that it announces. -/
theorem recv_cons_of_decrypts {crypto : CryptoPP} {transaction : Int32} {size : Bytes}
    {blockSize : Nat} (whole : size.length = 89)
    (decrypts : decryptTransaction crypto size transaction = some (uint32Bytes blockSize))
    (small : blockSize < 2 ^ 32) (dataLength : Nat) (callback : Bytes → Int) (reads : List Read) :
    recv crypto dataLength callback transaction (.received size :: reads) =
      if blockSize ≥ dataLength then some ⟨-1, [], transaction⟩
      else recvBlock crypto blockSize callback transaction reads := by
  have four : (uint32Bytes blockSize).length = 4 := rfl
  simp only [recv, whole, decrypts, four, uint32Value_uint32Bytes small, ne_eq, not_true_eq_false,
    if_false, show ¬ 89 = 0 by decide]

theorem recvBlock_effect {crypto : CryptoPP} {blockSize : Nat} {callback : Bytes → Int}
    {transaction : Int32} {reads : List Read} {received : Received}
    (receives : recvBlock crypto blockSize callback transaction reads = some received) :
    received.delivered = [] ∧ received.transaction = transaction ∨
      ∃ block payload, .received block ∈ reads ∧ block.length = blockSize ∧
        decryptTransaction crypto block transaction = some payload ∧
        received.delivered = [payload] ∧ received.transaction = transaction + 1 := by
  induction reads with
  | nil => cases receives
  | cons read rest ih =>
      cases read with
      | wouldBlock =>
          rcases ih receives with nothing | ⟨block, payload, member, effect⟩
          · exact .inl nothing
          · exact .inr ⟨block, payload, List.mem_cons_of_mem _ member, effect⟩
      | failed =>
          cases receives
          exact .inl ⟨rfl, rfl⟩
      | received data =>
          unfold recvBlock at receives
          split_ifs at receives with empty length
          · cases receives
            exact .inl ⟨rfl, rfl⟩
          · cases receives
            exact .inl ⟨rfl, rfl⟩
          · split at receives
            · cases receives
              exact .inl ⟨rfl, rfl⟩
            · rename_i payload decrypts
              cases receives
              exact .inr ⟨data, payload, List.mem_cons_self, not_not.mp length, decrypts, rfl, rfl⟩

/-- Both frames of a payload that gets through decrypt with the reader's number. -/
theorem recv_effect {crypto : CryptoPP} {dataLength : Nat} {callback : Bytes → Int}
    {transaction : Int32} {reads : List Read} {received : Received}
    (receives : recv crypto dataLength callback transaction reads = some received) :
    received.delivered = [] ∧ received.transaction = transaction ∨
      ∃ size block sizeData payload, .received size ∈ reads ∧ .received block ∈ reads ∧
        size.length = 89 ∧ decryptTransaction crypto size transaction = some sizeData ∧
        block.length = uint32Value sizeData ∧
        decryptTransaction crypto block transaction = some payload ∧
        received.delivered = [payload] ∧ received.transaction = transaction + 1 := by
  unfold recv at receives
  split at receives
  · cases receives
  · cases receives
    exact .inl ⟨rfl, rfl⟩
  · cases receives
    exact .inl ⟨rfl, rfl⟩
  · rename_i size rest
    split_ifs at receives with empty length
    · cases receives
      exact .inl ⟨rfl, rfl⟩
    · cases receives
      exact .inl ⟨rfl, rfl⟩
    · split at receives
      · cases receives
        exact .inl ⟨rfl, rfl⟩
      · rename_i sizeData decrypts
        split_ifs at receives
        · cases receives
          exact .inl ⟨rfl, rfl⟩
        · cases receives
          exact .inl ⟨rfl, rfl⟩
        · rcases recvBlock_effect receives with nothing | ⟨block, payload, member, effect⟩
          · exact .inl nothing
          · exact .inr ⟨size, block, sizeData, payload, List.mem_cons_self,
              List.mem_cons_of_mem _ member, not_not.mp length, decrypts, effect⟩

/-- The counter of the reads goes up with every payload delivered. -/
theorem recv_transaction {crypto : CryptoPP} {dataLength : Nat} {callback : Bytes → Int} {transaction : Int32}
    {reads : List Read} {received : Received}
    (receives : recv crypto dataLength callback transaction reads =
      some received) :
    received.transaction = transaction + .ofNat received.delivered.length := by
  rcases recv_effect receives with
    ⟨delivered, same⟩ | ⟨-, -, -, payload, -, -, -, -, -, -, delivered, next⟩
  · simp [delivered, same]
  · simp [delivered, next]

section Frames

variable {crypto : CryptoPP} (lawful : crypto.Lawful) (stale : Memory) (text : Bytes)
  (transaction : Int32)

include lawful

theorem fullWire_take_eq : (fullWire crypto stale text transaction).take 89 =
    sizeFrame crypto (encryptTransaction crypto text transaction) transaction ++
      0 :: stale.bytesAt 67 23 := by
  have all := Memory.bytesAt_ofString stale
    (sizeFrame crypto (encryptTransaction crypto text transaction) transaction) 23
  rw [sizeFrame_length lawful] at all
  exact (fullWire_take crypto stale text transaction).trans all

/-- The size frame is read as it was meant if nothing behind it reads as Base64. -/
theorem decrypt_fullWire_take
    (quiet : ∀ byte ∈ stale.bytesAt 67 23, Base64.inAlphabet byte = false) :
    decrypt crypto ((fullWire crypto stale text transaction).take 89) =
      some (transactionByte transaction ::
        uint32Bytes (encryptTransaction crypto text transaction).length) := by
  have quietTail : ∀ byte ∈ 0 :: stale.bytesAt 67 23, Base64.inAlphabet byte = false := by
    intro byte member
    rcases List.mem_cons.mp member with rfl | later
    · rfl
    · exact quiet byte later
  rw [fullWire_take_eq lawful, decrypt_append lawful quietTail]
  exact decrypt_encrypt lawful _

/-- What does arrive: a payload without zeros whose block is below the limit,
if nothing in the memory behind the size frame reads as Base64. -/
theorem recv_fullWire (callback : Bytes → Int)
    (quiet : ∀ byte ∈ stale.bytesAt 67 23, Base64.inAlphabet byte = false)
    (fits : (encryptTransaction crypto text transaction).length < packetLimit) :
    recv crypto packetLimit callback transaction
        [.received ((fullWire crypto stale text transaction).take 89),
          .received ((fullWire crypto stale text transaction).drop 89)] =
      some ⟨callback text, [text], transaction + 1⟩ := by
  let size := (fullWire crypto stale text transaction).take 89
  let block := encryptTransaction crypto text transaction
  have whole : size.length = 89 :=
    (congrArg List.length (fullWire_take crypto stale text transaction)).trans
      (Memory.bytesAt_length _ 1 89)
  have readsSize : decryptTransaction crypto size transaction =
      some (uint32Bytes block.length) := by
    unfold decryptTransaction
    rw [decrypt_fullWire_take lawful stale text transaction quiet]
    simp [block]
  have readsBlock : decryptTransaction crypto block transaction = some text :=
    decryptTransaction_encryptTransaction lawful text transaction
  have small : block.length < 2 ^ 32 := by
    apply Nat.lt_trans fits
    decide
  have nonempty : block.length ≠ 0 := encryptTransaction_length_ne lawful text transaction
  have inLimit : ¬ block.length ≥ packetLimit := Nat.not_le.mpr fits
  rw [fullWire_drop]
  change recv crypto packetLimit callback transaction [.received size, .received block] = _
  rw [recv_cons_of_decrypts whole readsSize small, if_neg inLimit]
  simp only [recvBlock, nonempty, readsBlock, ne_eq, not_true_eq_false, if_false]

end Frames

end SymmetricEncryptor

end Libjaypea
