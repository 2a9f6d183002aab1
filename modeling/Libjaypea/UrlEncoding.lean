import Libjaypea.Util
import Libjaypea.PercentEncoding

/-!
# Encoding and decoding of URL text

`url_decode` reads every byte that is percent-encoded with two digits back.
`url_encode` writes only the bytes of ASCII so: the number of any other `char`
is negative and is printed with eight digits, behind the zero that is meant to
pad a single one.
-/

namespace Libjaypea

namespace Util

/-- What `sprintf(bufHex, "%X", number)` prints. -/
def printHex (number : Int) : Bytes :=
  (Nat.toDigits 16 (number % 2 ^ 32).toNat).map fun digit => ch digit.toUpper

/-- What one byte adds to `new_str`. -/
def urlEncodeByte (c : UInt8) : Bytes :=
  let ic := charToInt c
  if c = ch ' ' then [ch '+']
  else if alphanumeric c ∨ c = ch '-' ∨ c = ch '_' ∨ c = ch '.' ∨ c = ch '~' then [c]
  else (if ic < 16 then bytes "%0" else bytes "%") ++ printHex ic

def urlEncode (str : Bytes) : Bytes :=
  (cString str).flatMap urlEncodeByte

/-! ## What the decoder reads -/

theorem scanHex_upperHex : ∀ high < 16, ∀ low < 16,
    scanHex [upperHex high, upperHex low] = some (UInt8.ofNat (16 * high + low)) := by
  decide +kernel

theorem urlDecode_percentByte (ii byte : UInt8) (rest : Bytes) :
    urlDecode ii (percentByte byte ++ rest) = byte :: urlDecode byte rest := by
  have number : 16 * (byte.toNat / 16) + byte.toNat % 16 = byte.toNat :=
    Nat.div_add_mod byte.toNat 16
  have scanned := scanHex_upperHex _ (div_sixteen_lt byte) _ (mod_sixteen_lt byte)
  rw [number, UInt8.ofNat_toNat] at scanned
  simp [percentByte, urlDecode, scanned]

theorem urlDecode_plain {byte : UInt8} (noPercent : byte ≠ ch '%') (noPlus : byte ≠ ch '+')
    (ii : UInt8) (rest : Bytes) :
    urlDecode ii (byte :: rest) = byte :: urlDecode ii rest := by
  simp [urlDecode, noPercent, noPlus]

theorem urlDecode_plus (ii : UInt8) (rest : Bytes) :
    urlDecode ii (ch '+' :: rest) = ch ' ' :: urlDecode ii rest := by
  simp [urlDecode, show ch '+' ≠ ch '%' by decide]

theorem urlDecode_alphanumeric {front : Bytes} (plain : ∀ byte ∈ front, alphanumeric byte)
    (ii : UInt8) (rest : Bytes) : urlDecode ii (front ++ rest) = front ++ urlDecode ii rest := by
  induction front with
  | nil => rfl
  | cons byte front ih =>
      have here := plain byte List.mem_cons_self
      rw [List.cons_append, urlDecode_plain (ne_of_alphanumeric here (by decide))
        (ne_of_alphanumeric here (by decide)),
        ih fun byte member => plain byte (List.mem_cons_of_mem _ member), List.cons_append]

/-- The decoder reads each byte of an encoded text on its own: if `decoded` is
what it reads from the code of each byte, it reads `decoded` of the whole. -/
theorem urlDecode_flatMap {encode decoded : UInt8 → Bytes} {text : Bytes}
    (step : ∀ byte ∈ text, ∀ (ii : UInt8) (rest : Bytes), ∃ later,
      urlDecode ii (encode byte ++ rest) = decoded byte ++ urlDecode later rest) (ii : UInt8) :
    urlDecode ii (text.flatMap encode) = text.flatMap decoded := by
  induction text generalizing ii with
  | nil => rfl
  | cons byte text ih =>
      obtain ⟨later, read⟩ := step byte List.mem_cons_self ii (text.flatMap encode)
      rw [List.flatMap_cons, read, ih fun byte member => step byte (List.mem_cons_of_mem _ member),
        List.flatMap_cons]

/-! ## What the encoder writes -/

theorem urlEncodeByte_ascii : ∀ c : UInt8, c < 128 →
    urlEncodeByte c = [c] ∧ c ≠ ch '%' ∧ c ≠ ch '+' ∨
      urlEncodeByte c = [ch '+'] ∧ c = ch ' ' ∨ urlEncodeByte c = percentByte c :=
  forall_byte (by decide +kernel)

/-- A negative `char` is printed as a number of 32 bits. -/
theorem urlEncodeByte_negative : ∀ c : UInt8, 128 ≤ c →
    urlEncodeByte c = percentByte 15 ++
      (bytes "FFFFF" ++ [upperHex (c.toNat / 16), upperHex (c.toNat % 16)]) :=
  forall_byte (by decide +kernel)

/-- What is read back in the place of a byte. -/
def readBack (c : UInt8) : Bytes :=
  if c < 128 then [c]
  else 15 :: (bytes "FFFFF" ++ [upperHex (c.toNat / 16), upperHex (c.toNat % 16)])

theorem urlDecode_urlEncodeByte (c ii : UInt8) (rest : Bytes) :
    ∃ later, urlDecode ii (urlEncodeByte c ++ rest) = readBack c ++ urlDecode later rest := by
  by_cases ascii : c < 128
  · rw [readBack, if_pos ascii]
    rcases urlEncodeByte_ascii c ascii with ⟨kept, noPercent, noPlus⟩ | ⟨plus, rfl⟩ | coded
    · rw [kept]
      exact ⟨ii, urlDecode_plain noPercent noPlus ii rest⟩
    · rw [plus]
      exact ⟨ii, urlDecode_plus ii rest⟩
    · rw [coded]
      exact ⟨c, urlDecode_percentByte ii c rest⟩
  · -- The escape takes the zero and one digit; the other seven stay in the text.
    have digits : ∀ byte ∈ bytes "FFFFF" ++ [upperHex (c.toNat / 16), upperHex (c.toNat % 16)],
        alphanumeric byte := by
      intro byte member
      rcases List.mem_append.mp member with member | member
      · have letters : ∀ byte ∈ bytes "FFFFF", alphanumeric byte := forall_mem_of_all (by decide)
        exact letters byte member
      · exact alphanumeric_of_mem_digits member
    rw [readBack, if_neg ascii, urlEncodeByte_negative c (UInt8.not_lt.mp ascii),
      List.append_assoc, urlDecode_percentByte, urlDecode_alphanumeric digits]
    exact ⟨15, rfl⟩

theorem urlDecode_urlEncode (ii : UInt8) (text : Bytes) :
    urlDecode ii (urlEncode text) = (cString text).flatMap readBack :=
  urlDecode_flatMap (fun byte _ ii rest => urlDecode_urlEncodeByte byte ii rest) ii

theorem length_readBack_pos (c : UInt8) : 1 ≤ (readBack c).length := by
  unfold readBack
  split <;> exact Nat.succ_pos _

theorem length_readBack {c : UInt8} (negative : ¬ c < 128) : (readBack c).length = 8 := by
  rw [readBack, if_neg negative]
  rfl

/-- A byte that is read back as more than one byte makes the text longer. -/
theorem length_le_flatMap_readBack (text : Bytes) :
    text.length ≤ (text.flatMap readBack).length ∧
      ((∃ byte ∈ text, ¬ byte < 128) → text.length < (text.flatMap readBack).length) := by
  induction text with
  | nil => simp
  | cons byte text ih =>
      have positive := length_readBack_pos byte
      rw [List.flatMap_cons, List.length_append, List.length_cons]
      refine ⟨by omega, ?_⟩
      rintro ⟨negative, member, large⟩
      rcases List.mem_cons.mp member with rfl | member
      · have eight := length_readBack large
        omega
      · have longer := ih.2 ⟨negative, member, large⟩
        omega

theorem flatMap_readBack_of_ascii {text : Bytes} (ascii : ∀ byte ∈ text, byte < 128) :
    text.flatMap readBack = text := by
  calc
    text.flatMap readBack = text.flatMap fun byte => [byte] :=
      List.flatMap_congr fun byte member => if_pos (ascii byte member)
    _ = text := List.flatMap_singleton' text

/-- A text comes back from its encoding exactly when every byte of it is ASCII. -/
theorem urlDecode_urlEncode_iff (ii : UInt8) (text : Bytes) (noZero : 0 ∉ text) :
    urlDecode ii (urlEncode text) = text ↔ ∀ byte ∈ text, byte < 128 := by
  rw [urlDecode_urlEncode, cString_of_noZero noZero]
  constructor
  · intro same byte member
    by_contra large
    have longer := (length_le_flatMap_readBack text).2 ⟨byte, member, large⟩
    rw [same] at longer
    exact Nat.lt_irrefl _ longer
  · exact flatMap_readBack_of_ascii

theorem urlDecode_urlEncode_plus :
    urlDecode 0 (urlEncode (bytes "1 + 1 = 2\n")) = bytes "1 + 1 = 2\n" :=
  (urlDecode_urlEncode_iff 0 (bytes "1 + 1 = 2\n") (by decide)).mpr
    (forall_mem_of_all (by decide))

/-- An `é` of Latin-1 comes back as eight bytes. -/
theorem urlDecode_urlEncode_latin :
    urlEncode [233] = bytes "%0FFFFFFE9" ∧ urlDecode 0 (urlEncode [233]) ≠ [233] := by
  decide +kernel

end Util

end Libjaypea
