import Libjaypea.Websocket
import Libjaypea.WebsocketFrame

/-!
# What a websocket client says and what is heard

A read that holds one whole frame is heard as it is meant, unless its 16-bit
length loses by the exchange of its bytes, or its payload looks like another
kind of frame.  Frames behind the first one of a read are not heard at all.
-/

namespace Libjaypea

open Rfc6455 Websocket

namespace Rfc6455.Frame

/-- The calls and the closing that a sequence of frames asks for. -/
def expected (onRead : Bytes → Int) : List Frame → List Bytes × Bool
  | [] => ([], false)
  | frame :: rest =>
      match frame.opcode with
      | .close => ([], true)
      | .ping | .pong => expected onRead rest
      | .text | .binary =>
          if frame.payload = Libjaypea.bytes "ping" then expected onRead rest
          else if onRead frame.payload < 0 then ([frame.payload], false)
          else (frame.payload :: (expected onRead rest).1, (expected onRead rest).2)

/-- The length that `parse_frame` reads from the length field: 16 bits with
the bytes exchanged, and of 64 bits the first two bytes. -/
def readLength (frame : Frame) : Nat :=
  let length := frame.payload.length
  match frame.encoding with
  | .short => length
  | .medium => length / 256 % 256 + 256 * (length % 256)
  | .long =>
      ((charToInt (UInt8.ofNat (length / 256 ^ 7)) +
        256 * charToInt (UInt8.ofNat (length / 256 ^ 6))) % 2 ^ 64).toNat

/-- A frame at the start of a read that is handled as its opcode says; `alone`
tells whether nothing follows it in the read. -/
structure Handled (frame : Frame) (alone : Prop) : Prop where
  inside : ¬ alone → frame.readLength ≤ frame.payload.length
  message :
    match frame.opcode with
    | .text | .binary =>
        frame.payload.length ≤ frame.readLength ∧ isDisconnect frame.payload = false
    | .ping | .pong => frame.payload.take frame.readLength = Libjaypea.bytes "ping"
    | .close => isDisconnect (frame.payload.take frame.readLength) = true

/-- A frame that asks for nothing. -/
def Silent (frame : Frame) : Prop :=
  match frame.opcode with
  | .text | .binary => frame.payload = Libjaypea.bytes "ping"
  | .ping | .pong => True
  | .close => False

/-- Every read begins with a frame that is handled, behind which only whole
frames come that ask for nothing. -/
inductive Framed : List Frame → List Packet → Prop
  | nil : Framed [] []
  | cons {frame : Frame} {silent frames : List Frame} {packet : Packet} {packets : List Packet}
      (data : packet.data = frame.encode ++ silent.flatMap encode)
      (handled : frame.Handled (silent = [])) (quiet : ∀ other ∈ silent, other.Silent)
      (framed : Framed frames packets) :
      Framed (frame :: (silent ++ frames)) (packet :: packets)

theorem lengthField_encode (frame : Frame) {data : Memory} {rest : Bytes}
    (held : data.Holds 1 (frame.header ++ rest)) :
    lengthField data = (frame.readLength, 1 + frame.encoding.size) ∧ data 2 &&& 0x80 ≠ 0 := by
  have fits := frame.fits
  have header := (Memory.holds_append.mp held).1
  unfold Frame.header at header
  unfold lengthField readLength
  cases encoding : frame.encoding with
  | short =>
      rw [encoding] at fits header
      have second : data 2 = UInt8.ofNat (128 + frame.payload.length) := header.2.1
      have small : frame.payload.length < 126 := fits
      have lengths : ∀ length < 126, (UInt8.ofNat (128 + length) &&& 0x7F).toNat = length ∧
          UInt8.ofNat (128 + length) &&& 0x80 ≠ 0 := by
        decide
      obtain ⟨value, bit⟩ := lengths _ small
      rw [second]
      refine ⟨?_, bit⟩
      dsimp only
      rw [value, if_neg (by omega), if_neg (by omega)]
      rfl
  | medium =>
      rw [encoding] at header
      obtain ⟨-, second, third, fourth, -⟩ := header
      have secondByte : data 2 = 254 := second
      have thirdByte : data 3 = UInt8.ofNat (frame.payload.length / 256) := third
      have fourthByte : data 4 = UInt8.ofNat frame.payload.length := fourth
      rw [secondByte, thirdByte, fourthByte]
      refine ⟨?_, by decide⟩
      simp only [UInt8.toNat_ofNat']
      rfl
  | long =>
      rw [encoding] at header
      obtain ⟨-, second, third, fourth, -⟩ := header
      have secondByte : data 2 = 255 := second
      have thirdByte : data 3 = UInt8.ofNat (frame.payload.length / 256 ^ 7) := third
      have fourthByte : data 4 = UInt8.ofNat (frame.payload.length / 256 ^ 6) := fourth
      rw [secondByte, thirdByte, fourthByte]
      refine ⟨rfl, by decide⟩

/-- What `parse_frame` makes of a frame and the bytes behind it. -/
theorem parseFrame_encode (frame : Frame) (stale : Memory) (tail : Bytes)
    (inside : tail ≠ [] → frame.readLength ≤ frame.payload.length) :
    parseFrame (Memory.ofString stale (frame.encode ++ tail)) (frame.encode ++ tail).length =
      frame.payload.take frame.readLength := by
  have held := Memory.ofString_holds stale (frame.encode ++ tail)
  generalize Memory.ofString stale (frame.encode ++ tail) = data at held ⊢
  rw [encode, List.append_assoc, List.append_assoc] at held
  obtain ⟨field, isMasked⟩ := frame.lengthField_encode held
  have afterHeader := (Memory.holds_append.mp held).2
  rw [List.append_assoc, header_length] at afterHeader
  obtain ⟨maskHeld, behindMask⟩ := Memory.holds_append.mp afterHeader
  have payloadHeld := (Memory.holds_append.mp behindMask).1
  have maskAt : ∀ index, data (1 + (1 + frame.encoding.size) + index % 4) =
      keyByte frame.mask index := by
    intro index
    have small : index % 4 < frame.maskBytes.length := by
      rw [maskBytes_length]
      exact Nat.mod_lt _ (by decide)
    rw [(Memory.holds_iff _).mp maskHeld (index % 4) small]
    exact frame.getElem_maskBytes index small
  have count : min frame.readLength
      ((frame.encode ++ tail).length - (1 + frame.encoding.size + 4)) =
        (frame.payload.take frame.readLength).length := by
    rw [List.length_append, encode_length, List.length_take]
    by_cases alone : tail = []
    · simp only [alone, List.length_nil]
      omega
    · have bound := inside alone
      omega
  unfold parseFrame
  simp only [field, isMasked, ne_eq, not_false_eq_true, if_true, count]
  apply List.ext_getElem
  · simp
  · intro index insideRange insideTake
    rw [List.length_take] at insideTake
    have insidePayload : index < frame.payload.length := by omega
    have insideMasked : index < (masked frame.mask frame.payload).length := by simpa
    have byte := (Memory.holds_iff _).mp payloadHeld index insideMasked
    have address : 1 + (1 + frame.encoding.size + 4) + index =
        1 + (1 + frame.encoding.size) + frame.maskBytes.length + index := by
      rw [maskBytes_length]
      omega
    simp only [List.getElem_map, List.getElem_range, List.getElem_take, maskAt]
    rw [address, byte]
    exact getElem_masked frame.mask frame.payload insidePayload insideMasked

theorem expected_cons (onRead : Bytes → Int) (frame : Frame) (rest : List Frame) :
    expected onRead (frame :: rest) =
      match frame.opcode with
      | .close => ([], true)
      | .ping | .pong => expected onRead rest
      | .text | .binary =>
          if frame.payload = Libjaypea.bytes "ping" then expected onRead rest
          else if onRead frame.payload < 0 then ([frame.payload], false)
          else (frame.payload :: (expected onRead rest).1, (expected onRead rest).2) :=
  rfl

theorem Silent.expected_append {silent : List Frame} (quiet : ∀ frame ∈ silent, frame.Silent)
    (onRead : Bytes → Int) (frames : List Frame) :
    expected onRead (silent ++ frames) = expected onRead frames := by
  induction silent with
  | nil => rfl
  | cons frame rest ih =>
      have first := quiet frame List.mem_cons_self
      have later := ih fun other member => quiet other (List.mem_cons_of_mem _ member)
      rw [List.cons_append, expected_cons]
      cases opcode : frame.opcode with
      | text =>
          simp only [Silent, opcode] at first
          rw [first, if_pos rfl, later]
      | binary =>
          simp only [Silent, opcode] at first
          rw [first, if_pos rfl, later]
      | ping => exact later
      | pong => exact later
      | close => simp only [Silent, opcode] at first

/-- Nothing is lost and nothing invented when every read is framed. -/
theorem session_of_framed {frames : List Frame} {packets : List Packet}
    (framed : Framed frames packets) (onRead : Bytes → Int) :
    session onRead packets = expected onRead frames := by
  induction framed with
  | nil => rfl
  | @cons frame silent frames packet packets data handled quiet _ ih =>
      have inside : silent.flatMap encode ≠ [] → frame.readLength ≤ frame.payload.length := by
        intro behind
        apply handled.inside
        rintro rfl
        exact behind rfl
      have message : packet.message = frame.payload.take frame.readLength := by
        unfold Packet.message
        rw [data]
        exact frame.parseFrame_encode packet.stale _ inside
      have tailExpected := Silent.expected_append quiet onRead frames
      have meant := handled.message
      rw [expected_cons, tailExpected, ← ih]
      cases opcode : frame.opcode with
      | close =>
          simp only [opcode, ← message] at meant
          exact session_of_disconnect packets meant
      | ping =>
          simp only [opcode, ← message] at meant
          exact session_of_ping packets meant
      | pong =>
          simp only [opcode, ← message] at meant
          exact session_of_ping packets meant
      | text =>
          simp only [opcode] at meant
          rw [List.take_of_length_le meant.1] at message
          rw [← message] at meant ⊢
          exact session_of_message packets meant.2
      | binary =>
          simp only [opcode] at meant
          rw [List.take_of_length_le meant.1] at message
          rw [← message] at meant ⊢
          exact session_of_message packets meant.2

namespace Sample

def letter (character : Char) : Frame where
  opcode := .text
  encoding := .short
  mask := fun index => UInt8.ofNat (17 * index.val)
  payload := [ch character]
  fits := (by decide : 1 < 126)

def pong : Frame where
  opcode := .pong
  encoding := .short
  mask _ := 0
  payload := []
  fits := (by decide : 0 < 126)

def packet (data : Bytes) : Packet :=
  ⟨data, fun _ => 0⟩

end Sample

/-- Two messages in reads of their own, with a pong behind the first one. -/
theorem session_of_framed_letters :
    session (fun _ => 1)
        [Sample.packet ((Sample.letter 'a').encode ++ Sample.pong.encode),
          Sample.packet (Sample.letter 'b').encode] =
      ([[ch 'a'], [ch 'b']], false) := by
  have handled : ∀ character alone, isDisconnect [ch character] = false →
      (Sample.letter character).Handled alone :=
    fun character alone ordinary => ⟨fun _ => Nat.le_refl 1, Nat.le_refl 1, ordinary⟩
  have framed : Framed [Sample.letter 'a', Sample.pong, Sample.letter 'b']
      [Sample.packet ((Sample.letter 'a').encode ++ Sample.pong.encode),
        Sample.packet (Sample.letter 'b').encode] := by
    refine @Framed.cons _ [Sample.pong] _ _ _ ?_ (handled 'a' _ (by decide)) ?_
      (@Framed.cons _ [] _ _ _ ?_ (handled 'b' _ (by decide)) ?_ .nil)
    · rfl
    · intro other member
      cases List.mem_singleton.mp member
      trivial
    · exact (List.append_nil _).symm
    · intro other member
      cases member
  rw [session_of_framed framed]
  rfl

/-- Two messages that arrive in one read: the second one is lost. -/
theorem exists_session_ne_expected :
    ∃ frames packets, packets.flatMap (fun packet : Packet => packet.data) = frames.flatMap encode ∧
      session (fun _ => 1) packets = ([[ch 'a']], false) ∧
      session (fun _ => 1) packets ≠ expected (fun _ => 1) frames := by
  refine ⟨[Sample.letter 'a', Sample.letter 'b'],
    [Sample.packet ((Sample.letter 'a').encode ++ (Sample.letter 'b').encode)], rfl, ?_, ?_⟩
  · decide
  · decide

end Rfc6455.Frame

end Libjaypea
