import Libjaypea.WebsocketFrame

/-!
# Decoding frames of RFC 6455

A decoder that accepts exactly the frames of the protocol: the reserved bits
are clear, and the length is written in the fewest bytes.  What it accepts
determines how many bytes it consumed.
-/

namespace Libjaypea

namespace Rfc6455

/-- The number that the bytes spell, the most significant one first. -/
def bigEndian (digits : Bytes) : Nat :=
  digits.foldl (fun number byte => 256 * number + byte.toNat) 0

/-- The first `count` bytes and the others, if there are as many. -/
def split (count : Nat) (input : Bytes) : Option (Bytes × Bytes) :=
  if count ≤ input.length then some (input.take count, input.drop count) else none

theorem split_eq_some_iff {count : Nat} {input front rest : Bytes} :
    split count input = some (front, rest) ↔ input = front ++ rest ∧ front.length = count := by
  unfold split
  rw [Option.ite_none_right_eq_some, Option.some.injEq, Prod.mk.injEq]
  constructor
  · rintro ⟨enough, rfl, rfl⟩
    exact ⟨(List.take_append_drop count input).symm, List.length_take_of_le enough⟩
  · rintro ⟨rfl, rfl⟩
    rw [List.length_append, List.take_left, List.drop_left]
    exact ⟨Nat.le_add_right _ _, rfl, rfl⟩

namespace LengthEncoding

/-- The encoding in the fewest bytes. -/
def prescribed (length : Nat) : LengthEncoding :=
  if length < 126 then .short else if length < 256 ^ 2 then .medium else .long

/-- The encoding that the seven bits announce. -/
def announced (bits : Nat) : LengthEncoding :=
  if bits < 126 then .short else if bits = 126 then .medium else .long

end LengthEncoding

/-- The length behind its first seven bits; 64 bits begin with a zero. -/
def decodeLength (bits : Nat) (input : Bytes) : Option (Nat × Bytes) :=
  (split ((LengthEncoding.announced bits).size - 1) input).bind fun (digits, rest) =>
    let length := if bits < 126 then bits else bigEndian digits
    if LengthEncoding.prescribed length = .announced bits ∧ length < 2 ^ 63 then
      some (length, rest)
    else none

def decodeMask (isMasked : Bool) (input : Bytes) : Option (Option (Fin 4 → UInt8) × Bytes) :=
  if isMasked then
    (split 4 input).map fun (key, rest) => (some fun index => key[index.val]?.getD 0, rest)
  else some (none, input)

structure Decoded where
  final : Bool
  opcode : Nat
  mask : Option (Fin 4 → UInt8)
  payload : Bytes

/-- The first frame of the input, and what follows it. -/
def decode : Bytes → Option (Decoded × Bytes)
  | first :: second :: input =>
      if first.toNat / 16 % 8 ≠ 0 then none
      else
        (decodeLength (second.toNat % 128) input).bind fun (length, input) =>
          (decodeMask (128 ≤ second.toNat) input).bind fun (mask, input) =>
            (split length input).map fun (data, rest) =>
              (⟨128 ≤ first.toNat, first.toNat % 16, mask,
                match mask with
                | none => data
                | some mask => masked mask data⟩, rest)
  | _ => none

/-- The input consists of the frames, one behind the other. -/
inductive Decodes : Bytes → List Decoded → Prop
  | nil : Decodes [] []
  | cons {input rest : Bytes} {frame : Decoded} {frames : List Decoded}
      (first : decode input = some (frame, rest)) (later : Decodes rest frames) :
      Decodes input (frame :: frames)

/-- The bytes of the frame. -/
def Decoded.size (frame : Decoded) : Nat :=
  1 + (LengthEncoding.prescribed frame.payload.length).size + (if frame.mask.isSome then 4 else 0) +
    frame.payload.length

theorem decodeLength_length {bits length : Nat} {input rest : Bytes}
    (decodes : decodeLength bits input = some (length, rest)) :
    input.length = (LengthEncoding.prescribed length).size - 1 + rest.length := by
  obtain ⟨⟨digits, others⟩, splits, checked⟩ := Option.bind_eq_some_iff.mp decodes
  obtain ⟨rfl, digitsLength⟩ := split_eq_some_iff.mp splits
  dsimp only at checked
  rw [Option.ite_none_right_eq_some, Option.some.injEq, Prod.mk.injEq] at checked
  obtain ⟨⟨fewest, -⟩, rfl, rfl⟩ := checked
  rw [List.length_append, digitsLength, fewest]

theorem decodeMask_length {isMasked : Bool} {mask : Option (Fin 4 → UInt8)} {input rest : Bytes}
    (decodes : decodeMask isMasked input = some (mask, rest)) :
    input.length = (if mask.isSome then 4 else 0) + rest.length := by
  unfold decodeMask at decodes
  cases isMasked with
  | false =>
      cases decodes
      exact (Nat.zero_add _).symm
  | true =>
      obtain ⟨⟨key, others⟩, splits, equal⟩ := Option.map_eq_some_iff.mp decodes
      obtain ⟨rfl, keyLength⟩ := split_eq_some_iff.mp splits
      cases equal
      rw [List.length_append, keyLength]
      rfl

/-- The decoder consumes the bytes of the frame. -/
theorem decode_length {input rest : Bytes} {frame : Decoded}
    (decodes : decode input = some (frame, rest)) : input.length = frame.size + rest.length := by
  unfold decode at decodes
  split at decodes
  · rename_i first second input
    rw [Option.ite_none_left_eq_some] at decodes
    obtain ⟨⟨length, behindLength⟩, lengths, later⟩ := Option.bind_eq_some_iff.mp decodes.2
    obtain ⟨⟨mask, behindMask⟩, masks, last⟩ := Option.bind_eq_some_iff.mp later
    obtain ⟨⟨data, others⟩, splits, equal⟩ := Option.map_eq_some_iff.mp last
    obtain ⟨rfl, dataLength⟩ := split_eq_some_iff.mp splits
    have consumed := decodeLength_length lengths
    rw [decodeMask_length masks, List.length_append, dataLength] at consumed
    have positive : 0 < (LengthEncoding.prescribed length).size := by
      cases LengthEncoding.prescribed length <;> decide
    cases equal
    have payloadLength : (match mask with
        | none => data
        | some mask => masked mask data).length = length := by
      cases mask with
      | none => exact dataLength
      | some mask => exact (masked_length mask data).trans dataLength
    simp only [Decoded.size, payloadLength, List.length_cons]
    omega
  · cases decodes

/-- The first seven bits of a length. -/
def LengthEncoding.bits (length : Nat) : LengthEncoding → Nat
  | .short => length
  | .medium => 126
  | .long => 127

theorem LengthEncoding.announced_bits {length : Nat} {encoding : LengthEncoding}
    (fits : length < encoding.bound) : announced (encoding.bits length) = encoding := by
  cases encoding with
  | short => exact if_pos fits
  | medium => rfl
  | long => rfl

theorem bigEndian_concat (digits : Bytes) (last : UInt8) :
    bigEndian (digits ++ [last]) = 256 * bigEndian digits + last.toNat := by
  rw [bigEndian, List.foldl_append]
  rfl

theorem bigEndian_digits (count length : Nat) :
    bigEndian ((List.range count).map fun i => UInt8.ofNat (length / 256 ^ (count - 1 - i))) =
      length % 256 ^ count := by
  induction count generalizing length with
  | zero => simp [bigEndian, Nat.mod_one]
  | succ count ih =>
      -- All digits but the last are those of the quotient.
      have front : ((List.range count).map fun i =>
          UInt8.ofNat (length / 256 ^ (count + 1 - 1 - i))) =
          (List.range count).map fun i => UInt8.ofNat (length / 256 / 256 ^ (count - 1 - i)) := by
        apply List.map_congr_left
        intro i member
        have inside := List.mem_range.mp member
        have exponent : count + 1 - 1 - i = count - 1 - i + 1 := by omega
        rw [exponent, Nat.pow_succ', Nat.div_div_eq_div_mul]
      have last : length / 256 ^ (count + 1 - 1 - count) = length := by
        rw [Nat.add_sub_cancel, Nat.sub_self, Nat.pow_zero, Nat.div_one]
      have value : (UInt8.ofNat length).toNat = length % 256 := UInt8.toNat_ofNat'
      rw [List.range_succ, List.map_append, List.map_singleton, bigEndian_concat, front, ih, last,
        value, Nat.add_comm, Nat.pow_succ', ← Nat.mod_mul]

theorem bigEndian_bytes {length : Nat} {encoding : LengthEncoding} (extended : encoding ≠ .short)
    (fits : length < encoding.bound) : bigEndian (encoding.bytes length).tail = length := by
  cases encoding with
  | short => exact absurd rfl extended
  | medium =>
      have digits := (bigEndian_digits 2 length).trans (Nat.mod_eq_of_lt fits)
      simpa [LengthEncoding.bytes, List.range_succ] using digits
  | long =>
      exact (bigEndian_digits 8 length).trans (Nat.mod_eq_of_lt fits)

theorem LengthEncoding.lt_bound_prescribed {length : Nat} (fits : length < 2 ^ 63) :
    length < (prescribed length).bound := by
  unfold prescribed
  split_ifs with short medium
  · exact short
  · exact medium
  · exact Nat.lt_trans fits (by decide)

/-- A length in its prescribed encoding is read back. -/
theorem decodeLength_bytes {length : Nat} (fits : length < 2 ^ 63) (rest : Bytes) :
    decodeLength ((LengthEncoding.prescribed length).bits length)
      (((LengthEncoding.prescribed length).bytes length).tail ++ rest) = some (length, rest) := by
  have bounded := LengthEncoding.lt_bound_prescribed fits
  have announces := LengthEncoding.announced_bits bounded
  unfold decodeLength
  rw [announces, split_eq_some_iff.mpr ⟨rfl, ?_⟩, Option.bind_some]
  · have number : (if (LengthEncoding.prescribed length).bits length < 126 then
        (LengthEncoding.prescribed length).bits length
      else bigEndian ((LengthEncoding.prescribed length).bytes length).tail) = length := by
      cases encoding : LengthEncoding.prescribed length with
      | short =>
          rw [encoding] at bounded
          exact if_pos bounded
      | medium =>
          rw [encoding] at bounded
          exact bigEndian_bytes (by decide) bounded
      | long =>
          rw [encoding] at bounded
          exact bigEndian_bytes (by decide) bounded
    dsimp only
    rw [number, if_pos ⟨rfl, fits⟩]
  · rw [List.length_tail, LengthEncoding.bytes_length]

/-- A frame is unmasked as it is masked. -/
theorem masked_masked (mask : Fin 4 → UInt8) (payload : Bytes) :
    masked mask (masked mask payload) = payload := by
  apply List.ext_getElem
  · rw [masked_length, masked_length]
  · intro index insideTwice inside
    have insideOnce : index < (masked mask payload).length := by
      rwa [masked_length] at insideTwice
    have twice : (masked mask (masked mask payload))[index] =
        (masked mask payload)[index] ^^^ keyByte mask index := List.getElem_mapIdx ..
    rw [twice]
    exact getElem_masked mask payload inside insideOnce

namespace Frame

theorem maskBytes_getD (frame : Frame) :
    (fun index : Fin 4 => frame.maskBytes[index.val]?.getD 0) = frame.mask := by
  funext index
  rw [maskBytes, List.getElem?_ofFn]
  simp

theorem decode_first (opcode : Opcode) :
    (UInt8.ofNat (128 + opcode.number)).toNat / 16 % 8 = 0 ∧
      128 ≤ (UInt8.ofNat (128 + opcode.number)).toNat ∧
      (UInt8.ofNat (128 + opcode.number)).toNat % 16 = opcode.number := by
  cases opcode <;> decide

/-- The second byte has the mask bit and the first bits of the length. -/
theorem exists_second (frame : Frame) :
    ∃ second : UInt8, frame.encoding.bytes frame.payload.length =
        second :: (frame.encoding.bytes frame.payload.length).tail ∧
      128 ≤ second.toNat ∧ second.toNat % 128 = frame.encoding.bits frame.payload.length := by
  have fits := frame.fits
  cases encoding : frame.encoding with
  | short =>
      rw [encoding] at fits
      have small : frame.payload.length < 126 := fits
      have exact7 : (128 + frame.payload.length) % 256 % 128 = frame.payload.length := by omega
      refine ⟨_, rfl, ?_, ?_⟩
      · rw [UInt8.toNat_ofNat']
        omega
      · rw [UInt8.toNat_ofNat']
        exact exact7
  | medium => exact ⟨254, rfl, by decide, rfl⟩
  | long => exact ⟨255, rfl, by decide, rfl⟩

/-- The decoder reads back a frame of a client with the prescribed length. -/
theorem decode_encode (frame : Frame) (fits : frame.payload.length < 2 ^ 63)
    (fewest : frame.encoding = .prescribed frame.payload.length) (rest : Bytes) :
    decode (frame.encode ++ rest) =
      some (⟨true, frame.opcode.number, some frame.mask, frame.payload⟩, rest) := by
  obtain ⟨reserved, final, opcode⟩ := decode_first frame.opcode
  obtain ⟨second, bytes, masks, bits⟩ := frame.exists_second
  have shape : frame.encode ++ rest = UInt8.ofNat (128 + frame.opcode.number) :: second ::
      ((frame.encoding.bytes frame.payload.length).tail ++
        (frame.maskBytes ++ (masked frame.mask frame.payload ++ rest))) := by
    rw [encode, header, bytes]
    simp only [List.cons_append, List.append_assoc, List.tail_cons]
  unfold decode
  rw [shape]
  dsimp only
  rw [if_neg (not_not.mpr reserved), bits, fewest, decodeLength_bytes fits, Option.bind_some]
  simp only [masks, decodeMask, decide_true, if_true]
  rw [split_eq_some_iff.mpr ⟨rfl, frame.maskBytes_length⟩, Option.map_some, Option.bind_some]
  dsimp only
  rw [split_eq_some_iff.mpr ⟨rfl, masked_length frame.mask frame.payload⟩, Option.map_some,
    maskBytes_getD, masked_masked, opcode]
  simp only [final, decide_true]

end Frame

end Rfc6455

end Libjaypea
