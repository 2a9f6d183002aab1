import Libjaypea.CString

/-!
# Percent-encoding

A byte may be written as `%` and the two digits of its number in base sixteen.
A percent-encoding keeps the bytes of one set as they are and writes every other
byte so.
-/

namespace Libjaypea

/-- An upper case digit of base sixteen. -/
def upperHex (digit : Nat) : UInt8 :=
  ch digit.digitChar.toUpper

def percentByte (byte : UInt8) : Bytes :=
  [ch '%', upperHex (byte.toNat / 16), upperHex (byte.toNat % 16)]

def percentEncode (plain : UInt8 → Bool) (text : Bytes) : Bytes :=
  text.flatMap fun byte => if plain byte then [byte] else percentByte byte

/-- Letters and digits of ASCII. -/
def alphanumeric (byte : UInt8) : Bool :=
  (ch '0' ≤ byte ∧ byte ≤ ch '9') ∨ (ch 'A' ≤ byte ∧ byte ≤ ch 'Z') ∨
    (ch 'a' ≤ byte ∧ byte ≤ ch 'z')

@[simp]
theorem percentEncode_nil (plain : UInt8 → Bool) : percentEncode plain [] = [] :=
  rfl

theorem percentEncode_cons (plain : UInt8 → Bool) (byte : UInt8) (text : Bytes) :
    percentEncode plain (byte :: text) =
      (if plain byte then [byte] else percentByte byte) ++ percentEncode plain text :=
  rfl

theorem div_sixteen_lt (byte : UInt8) : byte.toNat / 16 < 16 := by
  have small := byte.toNat_lt
  omega

theorem mod_sixteen_lt (byte : UInt8) : byte.toNat % 16 < 16 := by
  omega

theorem alphanumeric_upperHex : ∀ digit < 16, alphanumeric (upperHex digit) := by
  decide +kernel

theorem ne_of_alphanumeric {byte other : UInt8} (plain : alphanumeric byte)
    (special : alphanumeric other = false) : byte ≠ other := by
  rintro rfl
  rw [special] at plain
  cases plain

theorem alphanumeric_of_mem_digits {written byte : UInt8}
    (member : written ∈ [upperHex (byte.toNat / 16), upperHex (byte.toNat % 16)]) :
    alphanumeric written := by
  simp only [List.mem_cons, List.not_mem_nil, or_false] at member
  rcases member with rfl | rfl
  · exact alphanumeric_upperHex _ (div_sixteen_lt byte)
  · exact alphanumeric_upperHex _ (mod_sixteen_lt byte)

theorem alphanumeric_of_mem_percentByte {written byte : UInt8}
    (member : written ∈ percentByte byte) : written = ch '%' ∨ alphanumeric written :=
  (List.mem_cons.mp member).imp id alphanumeric_of_mem_digits

/-- Only bytes that are kept, percent signs and digits are written. -/
theorem mem_percentEncode {plain : UInt8 → Bool} {text : Bytes} {written : UInt8}
    (member : written ∈ percentEncode plain text) :
    plain written ∨ written = ch '%' ∨ alphanumeric written := by
  obtain ⟨byte, _, member⟩ := List.mem_flatMap.mp member
  by_cases kept : plain byte
  · rw [if_pos kept, List.mem_singleton] at member
    exact .inl (member ▸ kept)
  · rw [if_neg kept] at member
    exact .inr (alphanumeric_of_mem_percentByte member)

end Libjaypea
