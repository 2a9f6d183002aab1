import Libjaypea.WebsocketDecoder
import Libjaypea.WebsocketSession
import Libjaypea.WebsocketStream
import Mathlib.Data.List.TakeDrop

/-!
# The frames of the websocket layer and those of the protocol

`parse_frame` reads the two bytes of a 16-bit length in the wrong order, and
`create_frame` leaves out a length of 64 bits.
-/

namespace Libjaypea

open Rfc6455

namespace Websocket

section ClientFrames

variable {frame : Frame}

/-- With its prescribed length, a frame of one packet announces its payload in
7 or 16 bits; the exchange of the two bytes makes the length no smaller
exactly when the second is not the smaller one. -/
theorem length_le_readLength_iff (small : frame.payload.length ≤ packetLimit - 14)
    (fewest : frame.encoding = .prescribed frame.payload.length) :
    frame.payload.length ≤ frame.readLength ↔
      frame.payload.length / 256 ≤ frame.payload.length % 256 := by
  have bound : frame.payload.length ≤ 16370 := small
  unfold Frame.readLength
  rw [fewest]
  unfold LengthEncoding.prescribed
  by_cases short : frame.payload.length < 126
  · rw [if_pos short]
    dsimp only
    omega
  · have medium : frame.payload.length < 256 ^ 2 := by omega
    rw [if_neg short, if_pos medium]
    dsimp only
    omega

/-- A packet with one frame is read as its payload exactly when the high byte
of the length is not greater than the low one. -/
theorem parseFrame_encode_eq_iff (frame : Frame) (stale : Memory)
    (small : frame.payload.length ≤ packetLimit - 14)
    (fewest : frame.encoding = .prescribed frame.payload.length) :
    parseFrame (Memory.ofString stale frame.encode) frame.encode.length = frame.payload ↔
      frame.payload.length / 256 ≤ frame.payload.length % 256 := by
  have reads := frame.parseFrame_encode stale [] (fun behind => absurd rfl behind)
  rw [List.append_nil] at reads
  rw [reads, ← length_le_readLength_iff small fewest]
  exact List.take_eq_self_iff _

/-- A text frame with the shortest length and a mask of its own bytes. -/
def sampleFrame : Frame :=
  ⟨.text, .short, fun index => UInt8.ofNat (index.val + 1), bytes "hello", by decide⟩

theorem parseFrame_encode_eq_iff_sampleFrame :
    parseFrame (Memory.ofString (fun _ => 0) sampleFrame.encode) sampleFrame.encode.length =
      bytes "hello" := by
  have length : sampleFrame.payload.length = 5 := rfl
  have small : sampleFrame.payload.length ≤ packetLimit - 14 := by
    unfold packetLimit
    omega
  apply (parseFrame_encode_eq_iff sampleFrame (fun _ => 0) small rfl).mpr
  omega

/-- A text frame of 256 bytes: the length is read as one. -/
def longFrame : Frame :=
  ⟨.text, .medium, fun _ => 0, List.replicate 256 (ch 'a'), by rw [List.length_replicate]; decide⟩

theorem not_parseFrame_encode_eq :
    ¬ ∀ (frame : Frame) (stale : Memory), frame.payload.length ≤ packetLimit - 14 →
      frame.encoding = .prescribed frame.payload.length →
      frame.opcode = .text ∨ frame.opcode = .binary →
      parseFrame (Memory.ofString stale frame.encode) frame.encode.length = frame.payload := by
  intro decodes
  have length : longFrame.payload.length = 256 := List.length_replicate
  have small : longFrame.payload.length ≤ packetLimit - 14 := by
    unfold packetLimit
    omega
  have whole := decodes longFrame (fun _ => 0) small (by rw [length]; rfl) (.inl rfl)
  have reads := longFrame.parseFrame_encode (fun _ => 0) [] (fun behind => absurd rfl behind)
  rw [List.append_nil, whole, eq_comm, List.take_eq_self_iff, length] at reads
  have one : longFrame.readLength = 1 := by
    unfold Frame.readLength
    rw [length]
    rfl
  omega

end ClientFrames

section ServerFrames

/-- The unmasked final text frame. -/
def textFrame (payload : Bytes) : Decoded :=
  ⟨true, Opcode.text.number, none, payload⟩

variable {payload : Bytes}

/-- Up to 65535 bytes the length is written as the protocol prescribes. -/
theorem createFrame_eq (fits : payload.length ≤ 65535) :
    ∃ second : UInt8, second.toNat < 128 ∧
      second.toNat = (LengthEncoding.prescribed payload.length).bits payload.length ∧
      createFrame payload = 0x81 :: second ::
        (((LengthEncoding.prescribed payload.length).bytes payload.length).tail ++ payload) := by
  unfold createFrame LengthEncoding.prescribed
  dsimp only
  by_cases short : payload.length ≤ 125
  · have below : payload.length < 126 := by omega
    have value : payload.length % 2 ^ 8 = payload.length := by omega
    rw [if_pos below, if_pos short]
    refine ⟨UInt8.ofNat payload.length, ?_, ?_, rfl⟩
    · rw [UInt8.toNat_ofNat', value]
      omega
    · rw [UInt8.toNat_ofNat', value]
      rfl
  · have above : ¬ payload.length < 126 := by omega
    have medium : payload.length < 256 ^ 2 := by omega
    rw [if_neg above, if_pos medium, if_neg short, if_pos fits]
    exact ⟨126, by decide, rfl, rfl⟩

theorem decode_createFrame (fits : payload.length ≤ 65535) (rest : Bytes) :
    decode (createFrame payload ++ rest) = some (textFrame payload, rest) := by
  obtain ⟨second, unmasked, bits, shape⟩ := createFrame_eq fits
  have seven : second.toNat % 128 =
      (LengthEncoding.prescribed payload.length).bits payload.length := by
    rw [Nat.mod_eq_of_lt unmasked, bits]
  have noMask : decide (128 ≤ second.toNat) = false := by
    rw [decide_eq_false_iff_not]
    omega
  rw [shape, List.cons_append, List.cons_append, List.append_assoc]
  unfold decode
  dsimp only
  rw [if_neg (by decide), seven, decodeLength_bytes (by omega), Option.bind_some, noMask]
  unfold decodeMask
  rw [if_neg Bool.false_ne_true, Option.bind_some]
  dsimp only
  rw [split_eq_some_iff.mpr ⟨rfl, rfl⟩]
  rfl

/-- A frame with a length of 64 bits is longer than what is made of its payload. -/
theorem length_createFrame_lt (long : 65535 < payload.length) :
    (createFrame payload).length < (textFrame payload).size := by
  have shape : createFrame payload = 0x81 :: payload := by
    unfold createFrame
    dsimp only
    rw [if_neg (by omega), if_neg (by omega), List.nil_append]
  have encoding : LengthEncoding.prescribed payload.length = .long := by
    unfold LengthEncoding.prescribed
    rw [if_neg (by omega), if_neg (by omega)]
  rw [shape, Decoded.size]
  dsimp only [textFrame]
  rw [encoding, List.length_cons]
  simp only [LengthEncoding.size]
  omega

theorem length_createFrame_le : (createFrame payload).length ≤ (textFrame payload).size := by
  by_cases fits : payload.length ≤ 65535
  · have consumed := decode_length (decode_createFrame fits [])
    rw [List.append_nil, List.length_nil] at consumed
    exact Nat.le_of_eq consumed
  · exact Nat.le_of_lt (length_createFrame_lt (by omega))

/-- A decoder reads the payload and consumes the frame, whatever follows,
exactly when the length needs no 64 bits. -/
theorem decode_createFrame_iff (payload rest : Bytes) :
    decode (createFrame payload ++ rest) = some (textFrame payload, rest) ↔
      payload.length ≤ 65535 := by
  constructor
  · intro decodes
    by_contra long
    have consumed := decode_length decodes
    have shorter := @length_createFrame_lt payload (by omega)
    rw [List.length_append] at consumed
    omega
  · exact fun fits => decode_createFrame fits rest

def totalSize : List Decoded → Nat
  | [] => 0
  | frame :: frames => frame.size + totalSize frames

/-- What decodes as the frames is as long as they are. -/
theorem length_of_decodes {input : Bytes} {frames : List Decoded}
    (decodes : Decodes input frames) : input.length = totalSize frames := by
  induction decodes with
  | nil => rfl
  | cons first later ih =>
      rw [decode_length first, ih, totalSize]

theorem decodes_createFrame {payloads : List Bytes}
    (fit : ∀ payload ∈ payloads, payload.length ≤ 65535) :
    Decodes (payloads.flatMap createFrame) (payloads.map textFrame) := by
  induction payloads with
  | nil => exact .nil
  | cons payload later ih =>
      rw [List.flatMap_cons, List.map_cons]
      exact .cons (decode_createFrame (fit payload List.mem_cons_self) _)
        (ih fun other member => fit other (List.mem_cons_of_mem payload member))

theorem length_flatMap_createFrame_le (payloads : List Bytes) :
    (payloads.flatMap createFrame).length ≤ totalSize (payloads.map textFrame) := by
  induction payloads with
  | nil => exact Nat.le_refl 0
  | cons payload later ih =>
      rw [List.flatMap_cons, List.length_append, List.map_cons, totalSize]
      exact Nat.add_le_add length_createFrame_le ih

/-- One frame with a missing length makes the whole sequence too short. -/
theorem length_flatMap_createFrame_lt {payloads : List Bytes} {payload : Bytes}
    (member : payload ∈ payloads) (long : 65535 < payload.length) :
    (payloads.flatMap createFrame).length < totalSize (payloads.map textFrame) := by
  induction payloads with
  | nil => cases member
  | cons first later ih =>
      rw [List.flatMap_cons, List.length_append, List.map_cons, totalSize]
      rcases List.mem_cons.mp member with rfl | behind
      · exact Nat.add_lt_add_of_lt_of_le (length_createFrame_lt long)
          (length_flatMap_createFrame_le later)
      · exact Nat.add_lt_add_of_le_of_lt length_createFrame_le (ih behind)

/-- A frame is read, with whatever follows it, exactly when its length needs no
64 bits, and a sequence of frames exactly when none of them does. -/
theorem createFrame_correct_iff (payload rest : Bytes) (payloads : List Bytes) :
    (decode (createFrame payload ++ rest) = some (textFrame payload, rest) ↔
      payload.length ≤ 65535) ∧
    (Decodes (payloads.flatMap createFrame) (payloads.map textFrame) ↔
      ∀ payload ∈ payloads, payload.length ≤ 65535) := by
  constructor
  · exact decode_createFrame_iff payload rest
  · constructor
    · intro decodes payload member
      by_contra long
      have exact := length_of_decodes decodes
      have shorter := length_flatMap_createFrame_lt member (by omega)
      omega
    · exact decodes_createFrame

/-- The frame of 65536 bytes is not read as its payload. -/
theorem not_createFrame_correct :
    ¬ ∀ payload : Bytes, payload.length < 2 ^ 63 → ∀ rest,
      decode (createFrame payload ++ rest) = some (textFrame payload, rest) := by
  intro correct
  have length : (List.replicate 65536 (0 : UInt8)).length = 65536 := List.length_replicate
  have fits := (decode_createFrame_iff _ []).mp
    (correct (List.replicate 65536 0) (by rw [length]; decide) [])
  rw [length] at fits
  omega

end ServerFrames

end Websocket

end Libjaypea
