import Libjaypea.CString

/-!
# Client frames of RFC 6455

A final frame that is masked: an opcode, the length of the payload in one of
three encodings, the masking key and the masked payload.
-/

namespace Libjaypea

namespace Rfc6455

inductive Opcode
  | text
  | binary
  | close
  | ping
  | pong
  deriving DecidableEq, Repr

def Opcode.number : Opcode → Nat
  | .text => 1
  | .binary => 2
  | .close => 8
  | .ping => 9
  | .pong => 10

/-- The length in 7, 16 or 64 bits. -/
inductive LengthEncoding
  | short
  | medium
  | long
  deriving DecidableEq, Repr

namespace LengthEncoding

/-- The first length that does not fit. -/
def bound : LengthEncoding → Nat
  | .short => 126
  | .medium => 256 ^ 2
  | .long => 256 ^ 8

/-- The bytes of the length, the most significant one first, behind the byte
that also has the mask bit. -/
def bytes (length : Nat) : LengthEncoding → Bytes
  | .short => [UInt8.ofNat (128 + length)]
  | .medium => [254, UInt8.ofNat (length / 256), UInt8.ofNat length]
  | .long =>
      255 :: (List.range 8).map fun i => UInt8.ofNat (length / 256 ^ (7 - i))

def size : LengthEncoding → Nat
  | .short => 1
  | .medium => 3
  | .long => 9

@[simp]
theorem bytes_length (length : Nat) (encoding : LengthEncoding) :
    (encoding.bytes length).length = encoding.size := by
  cases encoding <;> rfl

end LengthEncoding

/-- The byte of the masking key for the byte `index` of a payload. -/
def keyByte (mask : Fin 4 → UInt8) (index : Nat) : UInt8 :=
  mask (Fin.ofNat 4 index)

def masked (mask : Fin 4 → UInt8) (payload : Bytes) : Bytes :=
  payload.mapIdx fun index byte => byte ^^^ keyByte mask index

@[simp]
theorem masked_length (mask : Fin 4 → UInt8) (payload : Bytes) :
    (masked mask payload).length = payload.length :=
  List.length_mapIdx

/-- Masking twice gives the payload back. -/
theorem getElem_masked (mask : Fin 4 → UInt8) (payload : Bytes) {index : Nat}
    (inside : index < payload.length) (insideMasked : index < (masked mask payload).length) :
    (masked mask payload)[index] ^^^ keyByte mask index = payload[index] := by
  simp only [masked, List.getElem_mapIdx, UInt8.xor_assoc, UInt8.xor_self, UInt8.xor_zero]

structure Frame where
  opcode : Opcode
  encoding : LengthEncoding
  mask : Fin 4 → UInt8
  payload : Bytes
  fits : payload.length < encoding.bound

namespace Frame

variable (frame : Frame)

def header : Bytes :=
  UInt8.ofNat (128 + frame.opcode.number) :: frame.encoding.bytes frame.payload.length

def maskBytes : Bytes :=
  List.ofFn frame.mask

def encode : Bytes :=
  frame.header ++ (frame.maskBytes ++ masked frame.mask frame.payload)

theorem header_length : frame.header.length = 1 + frame.encoding.size := by
  rw [header, List.length_cons, LengthEncoding.bytes_length, Nat.add_comm]

@[simp]
theorem maskBytes_length : frame.maskBytes.length = 4 :=
  List.length_ofFn

theorem getElem_maskBytes (index : Nat) (inside : index % 4 < frame.maskBytes.length) :
    frame.maskBytes[index % 4] = keyByte frame.mask index :=
  List.getElem_ofFn inside

theorem encode_length :
    frame.encode.length = 1 + frame.encoding.size + (4 + frame.payload.length) := by
  rw [encode, List.length_append, List.length_append, header_length, masked_length,
    maskBytes_length]

end Frame

end Rfc6455

end Libjaypea
