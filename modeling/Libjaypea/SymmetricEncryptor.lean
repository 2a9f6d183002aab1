import Libjaypea.Base64
import Libjaypea.Util

/-!
# The symmetric transport

`SymmetricEncryptor` sends a payload as two frames, the size of the block and
the block, each encrypted with a transaction byte in front.  The ciphers are
those of a library and are given by their documented behaviour; what `write`
and `read` return is given by the caller.
-/

namespace Libjaypea

namespace Memory

/-- `std::string(pointer)`: the bytes from `address` up to the first zero. -/
def string (memory : Memory) : Nat → Nat → Option Bytes
  | 0, _ => none
  | fuel + 1, address =>
      if memory address = 0 then some []
      else (string memory fuel (address + 1)).map fun rest => memory address :: rest

def bytesAt (memory : Memory) (address count : Nat) : Bytes :=
  (List.range count).map fun i => memory (address + i)

/-- The C string `text` lies at `address`. -/
def HoldsString (memory : Memory) (address : Nat) (text : Bytes) : Prop :=
  memory.Holds address (text ++ [0]) ∧ 0 ∉ text

@[simp]
theorem bytesAt_length (memory : Memory) (address count : Nat) :
    (memory.bytesAt address count).length = count := by
  simp [bytesAt]

theorem string_of_holdsString {memory : Memory} {address : Nat} {text : Bytes}
    (held : memory.HoldsString address text) : memory.string (text.length + 1) address = some text := by
  induction text generalizing address with
  | nil =>
      have terminator : memory address = 0 := held.1.1
      simp [string, terminator]
  | cons byte rest ih =>
      obtain ⟨⟨here, later⟩, nonzero⟩ := held
      rw [List.mem_cons, not_or] at nonzero
      have running : memory address ≠ 0 := by
        rw [here]
        exact Ne.symm nonzero.1
      rw [List.length_cons, string, if_neg running, ih ⟨later, nonzero.2⟩, Option.map_some, here]

theorem holdsString_of_string {memory : Memory} {fuel address : Nat} {text : Bytes}
    (read : memory.string fuel address = some text) : memory.HoldsString address text := by
  induction fuel generalizing address text with
  | zero => simp [string] at read
  | succ fuel ih =>
      unfold string at read
      split at read
      · rename_i terminator
        cases read
        exact ⟨⟨terminator, trivial⟩, List.not_mem_nil⟩
      · rename_i running
        rw [Option.map_eq_some_iff] at read
        obtain ⟨rest, readRest, rfl⟩ := read
        have held := ih readRest
        apply And.intro
        · exact ⟨rfl, held.1⟩
        · rw [List.mem_cons, not_or]
          exact ⟨Ne.symm running, held.2⟩

theorem bytesAt_ofString (stale : Memory) (text : Bytes) (count : Nat) :
    (ofString stale text).bytesAt 1 (text.length + 1 + count) =
      text ++ 0 :: stale.bytesAt (text.length + 2) count := by
  apply List.ext_getElem
  · simp only [bytesAt_length, List.length_append, List.length_cons]
    omega
  · intro index inside _
    rw [bytesAt_length] at inside
    simp only [bytesAt, List.getElem_map, List.getElem_range]
    rcases Nat.lt_or_ge index (text.length + 1) with early | late
    · have holds := (holds_iff 1).mp (ofString_holds stale text) index (by simpa using early)
      rw [holds]
      rcases Nat.lt_or_ge index text.length with inText | atEnd
      · rw [List.getElem_append_left inText, List.getElem_append_left inText]
      · have last : index = text.length := by omega
        subst last
        simp
    · have outside : (0 :: text ++ [0]).length ≤ 1 + index := by
        simp only [List.length_append, List.length_cons, List.length_nil]
        omega
      rw [List.getElem_append_right (by omega), List.getElem_cons, dif_neg (by omega)]
      simp only [ofString, List.getElem?_eq_none outside, Option.getD_none, List.getElem_map,
        List.getElem_range]
      congr 1
      omega

end Memory

/-- The parts of the cryptographic library in use, under one key. -/
structure CryptoPP where
  cbcEncrypt : Bytes → Bytes
  /-- `none` where the library throws. -/
  cbcDecrypt : Bytes → Option Bytes
  hmac : Bytes → Bytes
  base64Encode : Bytes → Bytes
  base64Decode : Bytes → Bytes

namespace CryptoPP

/-- CBC pads to whole blocks of 16 bytes and is inverted by its decryption; an
HMAC has 32 bytes; Base64 is written in lines of 72 characters, the last one
closed too, and is read without regard to what is not in the alphabet. -/
structure Lawful (crypto : CryptoPP) : Prop where
  cbcEncrypt_length : ∀ data, (crypto.cbcEncrypt data).length = 16 * (data.length / 16 + 1)
  cbcDecrypt_cbcEncrypt : ∀ data, crypto.cbcDecrypt (crypto.cbcEncrypt data) = some data
  hmac_length : ∀ data, (crypto.hmac data).length = 32
  base64Encode_length : ∀ data, data ≠ [] →
    (crypto.base64Encode data).length =
      4 * ((data.length + 2) / 3) + (4 * ((data.length + 2) / 3) + 71) / 72
  base64Decode_base64Encode : ∀ data, crypto.base64Decode (crypto.base64Encode data) = data
  base64Decode_filter : ∀ text,
    crypto.base64Decode (text.filter Base64.inAlphabet) = crypto.base64Decode text

end CryptoPP

/-- What `read` on the socket returned; no bytes when the peer has closed it. -/
inductive Read where
  | wouldBlock
  | failed
  | received (data : Bytes)

namespace SymmetricEncryptor

def encrypt (crypto : CryptoPP) (data : Bytes) : Bytes :=
  let encryptedData := crypto.cbcEncrypt data
  crypto.base64Encode (crypto.hmac encryptedData ++ encryptedData)

/-- `none` where the source throws. -/
def decrypt (crypto : CryptoPP) (data : Bytes) : Option Bytes :=
  let encryptedData := crypto.base64Decode data
  if encryptedData.length < 32 ∨ crypto.hmac (encryptedData.drop 32) ≠ encryptedData.take 32 then
    none
  else crypto.cbcDecrypt (encryptedData.drop 32)

/-- `static_cast<char>(transaction % 255)`.  The counter is an `int`; one that
overflows is taken to wrap around. -/
def transactionByte (transaction : Int32) : UInt8 :=
  UInt8.ofInt (transaction % 255).toInt

def encryptTransaction (crypto : CryptoPP) (data : Bytes) (transaction : Int32) : Bytes :=
  encrypt crypto (transactionByte transaction :: data)

/-- Reading the first byte of an empty string gives its terminator. -/
def decryptTransaction (crypto : CryptoPP) (data : Bytes) (transaction : Int32) : Option Bytes :=
  (decrypt crypto data).bind fun newData =>
    if newData.headD 0 ≠ transactionByte transaction then none
    else some (newData.drop 1)

/-- A `uint32_t` as it lies in memory. -/
def uint32Bytes (number : Nat) : Bytes :=
  [UInt8.ofNat number, UInt8.ofNat (number / 256), UInt8.ofNat (number / 256 ^ 2),
    UInt8.ofNat (number / 256 ^ 3)]

def uint32Value (data : Bytes) : Nat :=
  data.foldr (fun byte number => byte.toNat + 256 * number) 0

structure Sent where
  /-- The value `send` returns. -/
  failed : Bool
  transaction : Int32
  /-- What the two calls of `write` put on the wire. -/
  wire : Bytes

def sizeFrame (crypto : CryptoPP) (sendData : Bytes) (transaction : Int32) : Bytes :=
  encryptTransaction crypto (uint32Bytes sendData.length) transaction

/-- The payload is read as a C string from address one of `data`; `stale` is
the memory behind the size frame; `sizeWrite` and `blockWrite` are the numbers
of bytes the two writes take, `none` for an error. -/
def send (crypto : CryptoPP) (data stale : Memory) (transaction : Int32)
    (sizeWrite blockWrite : Option Nat) (fuel : Nat) : Option Sent :=
  (data.string fuel 1).map fun text =>
    let sendData := encryptTransaction crypto text transaction
    let sendDataSize := Memory.ofString stale (sizeFrame crypto sendData transaction)
    match sizeWrite with
    | none => ⟨true, transaction + 1, []⟩
    | some len =>
        if len ≠ 89 then ⟨true, transaction + 1, sendDataSize.bytesAt 1 len⟩
        else
          match blockWrite with
          | none => ⟨true, transaction + 1, sendDataSize.bytesAt 1 89⟩
          | some len =>
              ⟨len ≠ sendData.length, transaction + 1,
                sendDataSize.bytesAt 1 89 ++ sendData.take len⟩

structure Received where
  result : Int
  /-- The data of every call of the callback. -/
  delivered : List Bytes
  transaction : Int32

/-- The loop that reads the block; a read that would block is tried again. -/
def recvBlock (crypto : CryptoPP) (blockSize : Nat) (callback : Bytes → Int) (transaction : Int32) :
    List Read → Option Received
  | [] => none
  | .wouldBlock :: reads => recvBlock crypto blockSize callback transaction reads
  | .failed :: _ => some ⟨-1, [], transaction⟩
  | .received data :: _ =>
      if data.length = 0 then some ⟨-2, [], transaction⟩
      else if data.length ≠ blockSize then some ⟨-3, [], transaction⟩
      else
        match decryptTransaction crypto data transaction with
        | none => some ⟨-4, [], transaction⟩
        | some recvData => some ⟨callback recvData, [recvData], transaction + 1⟩

/-- `none` when the reads given are used up before `recv` returns. -/
def recv (crypto : CryptoPP) (dataLength : Nat) (callback : Bytes → Int) (transaction : Int32) :
    List Read → Option Received
  | [] => none
  | .wouldBlock :: _ => some ⟨0, [], transaction⟩
  | .failed :: _ => some ⟨-1, [], transaction⟩
  | .received data :: reads =>
      if data.length = 0 then some ⟨-2, [], transaction⟩
      else if data.length ≠ 89 then some ⟨-3, [], transaction⟩
      else
        match decryptTransaction crypto data transaction with
        | none => some ⟨-4, [], transaction⟩
        | some recvSizeData =>
            if recvSizeData.length ≠ 4 then some ⟨-5, [], transaction⟩
            else if uint32Value recvSizeData ≥ dataLength then some ⟨-1, [], transaction⟩
            else recvBlock crypto (uint32Value recvSizeData) callback transaction reads

section Numbers

/-- The remainder of a negative number is negative, and its byte counts from 256. -/
theorem transactionByte_toNat (transaction : Int32) :
    ((transactionByte transaction).toNat : Int) =
      if 0 ≤ transaction.toInt ∨ transaction.toInt % 255 = 0 then transaction.toInt % 255
      else transaction.toInt % 255 + 1 := by
  have remainder : (transaction % 255).toInt = transaction.toInt.tmod 255 := Int32.toInt_mod ..
  have byte : ((transactionByte transaction).toNat : Int) = transaction.toInt.tmod 255 % 256 := by
    rw [transactionByte, remainder, UInt8.ofInt, UInt8.toNat_ofNat']
    omega
  rw [byte, Int.tmod_eq_emod]
  split_ifs <;> omega

/-- Numbers less than 255 apart have bytes of their own, also where the counter wraps around. -/
theorem eq_zero_of_transactionByte_eq {first second : Int32} {distance : Int}
    (near : distance.natAbs < 255) (apart : (first.toInt - second.toInt - distance) % 2 ^ 32 = 0)
    (equal : transactionByte first = transactionByte second) : distance = 0 := by
  have bytes : ((transactionByte first).toNat : Int) = (transactionByte second).toNat := by
    rw [equal]
  rw [transactionByte_toNat, transactionByte_toNat] at bytes
  have firstLow := first.le_toInt
  have firstHigh := first.toInt_lt
  have secondLow := second.le_toInt
  have secondHigh := second.toInt_lt
  -- The counters are apart by the distance, unless one of them has wrapped around.
  have wraps : first.toInt - second.toInt = distance ∨
      first.toInt - second.toInt = distance + 2 ^ 32 ∨
      first.toInt - second.toInt = distance - 2 ^ 32 := by
    omega
  rcases wraps with straight | up | down
  · split_ifs at bytes <;> omega
  · split_ifs at bytes <;> omega
  · split_ifs at bytes <;> omega

theorem transactionByte_succ_ne (transaction : Int32) :
    transactionByte (transaction + 1) ≠ transactionByte transaction := by
  intro equal
  have apart : ((transaction + 1).toInt - transaction.toInt - 1) % 2 ^ 32 = 0 := by
    have one : (1 : Int32).toInt = 1 := rfl
    rw [Int32.toInt_add, one, Int.bmod_def]
    split_ifs <;> omega
  have absurd := eq_zero_of_transactionByte_eq (by decide) apart equal
  omega

/-- The same of the messages of a connection. -/
theorem eq_of_transactionByte_eq {first second : Nat} (near : ((first : Int) - second).natAbs < 255)
    (equal : transactionByte (.ofNat first) = transactionByte (.ofNat second)) : first = second := by
  have apart : ((Int32.ofNat first).toInt - (Int32.ofNat second).toInt - (first - second)) %
      2 ^ 32 = 0 := by
    simp only [Int32.toInt_ofNat', Int.bmod_def, Int32.size]
    split_ifs <;> omega
  have same := eq_zero_of_transactionByte_eq near apart equal
  omega

theorem mod_eq_of_transactionByte_eq {first second : Nat} (firstSmall : first < 2 ^ 31)
    (secondSmall : second < 2 ^ 31)
    (equal : transactionByte (.ofNat first) = transactionByte (.ofNat second)) :
    first % 255 = second % 255 := by
  have bytes : ((transactionByte (.ofNat first)).toNat : Int) =
      (transactionByte (.ofNat second)).toNat := by
    rw [equal]
  rw [transactionByte_toNat, transactionByte_toNat, Int32.toInt_ofNat_of_lt firstSmall,
    Int32.toInt_ofNat_of_lt secondSmall] at bytes
  split_ifs at bytes <;> omega

end Numbers

section Lengths

variable {crypto : CryptoPP} (lawful : crypto.Lawful)

include lawful

theorem encrypt_length (data : Bytes) :
    (encrypt crypto data).length =
      4 * ((16 * (data.length / 16 + 1) + 34) / 3) +
        (4 * ((16 * (data.length / 16 + 1) + 34) / 3) + 71) / 72 := by
  have length : (crypto.hmac (crypto.cbcEncrypt data) ++ crypto.cbcEncrypt data).length =
      16 * (data.length / 16 + 1) + 32 := by
    rw [List.length_append, lawful.hmac_length, lawful.cbcEncrypt_length, Nat.add_comm]
  have nonempty : crypto.hmac (crypto.cbcEncrypt data) ++ crypto.cbcEncrypt data ≠ [] := by
    apply List.ne_nil_of_length_pos
    omega
  unfold encrypt
  rw [lawful.base64Encode_length _ nonempty, length]

theorem encryptTransaction_length_ne (data : Bytes) (transaction : Int32) :
    (encryptTransaction crypto data transaction).length ≠ 0 := by
  unfold encryptTransaction
  rw [encrypt_length lawful]
  omega

/-- Not the 89 bytes that `send` writes and `recv` reads. -/
theorem sizeFrame_length (sendData : Bytes) (transaction : Int32) :
    (sizeFrame crypto sendData transaction).length = 65 := by
  have five : (transactionByte transaction :: uint32Bytes sendData.length).length = 5 := rfl
  unfold sizeFrame encryptTransaction
  rw [encrypt_length lawful, five]

theorem decrypt_encrypt (data : Bytes) : decrypt crypto (encrypt crypto data) = some data := by
  have hashLength := lawful.hmac_length (crypto.cbcEncrypt data)
  have body : (crypto.hmac (crypto.cbcEncrypt data) ++ crypto.cbcEncrypt data).drop 32 =
      crypto.cbcEncrypt data := List.drop_left' hashLength
  have hash : (crypto.hmac (crypto.cbcEncrypt data) ++ crypto.cbcEncrypt data).take 32 =
      crypto.hmac (crypto.cbcEncrypt data) := List.take_left' hashLength
  have long : ¬ (crypto.hmac (crypto.cbcEncrypt data) ++ crypto.cbcEncrypt data).length < 32 := by
    rw [List.length_append, hashLength]
    omega
  unfold decrypt encrypt
  simp only [lawful.base64Decode_base64Encode, body, hash, long, ne_eq, not_true_eq_false,
    or_self, if_false, lawful.cbcDecrypt_cbcEncrypt]

theorem decryptTransaction_encryptTransaction (data : Bytes) (transaction : Int32) :
    decryptTransaction crypto (encryptTransaction crypto data transaction) transaction =
      some data := by
  simp [decryptTransaction, encryptTransaction, decrypt_encrypt lawful]

/-- Bytes behind a frame that are not in the alphabet do no harm. -/
theorem decrypt_append {tail : Bytes} (quiet : ∀ byte ∈ tail, Base64.inAlphabet byte = false)
    (text : Bytes) : decrypt crypto (text ++ tail) = decrypt crypto text := by
  have none_left : tail.filter Base64.inAlphabet = [] := by
    rw [List.filter_eq_nil_iff]
    intro byte member
    simp [quiet byte member]
  have same : crypto.base64Decode (text ++ tail) = crypto.base64Decode text := by
    rw [← lawful.base64Decode_filter, List.filter_append, none_left, List.append_nil,
      lawful.base64Decode_filter]
  unfold decrypt
  rw [same]

end Lengths

end SymmetricEncryptor

end Libjaypea
