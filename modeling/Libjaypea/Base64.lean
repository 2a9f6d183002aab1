import Libjaypea.CString

/-!
# Base64 with line breaks

The encoding of RFC 4648 in lines of a fixed width, each closed by a newline,
and a decoder that skips every byte outside the alphabet.
-/

namespace Libjaypea

namespace Base64

/-- The character of a six-bit digit. -/
def digit (value : Nat) : UInt8 :=
  if value < 26 then ch 'A' + UInt8.ofNat value
  else if value < 52 then ch 'a' + UInt8.ofNat (value - 26)
  else if value < 62 then ch '0' + UInt8.ofNat (value - 52)
  else if value = 62 then ch '+' else ch '/'

def value (character : UInt8) : Option Nat :=
  if ch 'A' ≤ character ∧ character ≤ ch 'Z' then some (character - ch 'A').toNat
  else if ch 'a' ≤ character ∧ character ≤ ch 'z' then some ((character - ch 'a').toNat + 26)
  else if ch '0' ≤ character ∧ character ≤ ch '9' then some ((character - ch '0').toNat + 52)
  else if character = ch '+' then some 62
  else if character = ch '/' then some 63
  else none

def inAlphabet (character : UInt8) : Bool :=
  (value character).isSome

theorem value_digit {number : Nat} (small : number < 64) : value (digit number) = some number := by
  have all : ∀ number : Fin 64, value (digit number) = some number.val := by decide
  exact all ⟨number, small⟩

/-- Three bytes at a time; the last group is filled up with `=`. -/
def digits : Bytes → Bytes
  | [] => []
  | [first] =>
      [digit (first.toNat / 4), digit (first.toNat % 4 * 16), ch '=', ch '=']
  | [first, second] =>
      [digit (first.toNat / 4), digit (first.toNat % 4 * 16 + second.toNat / 16),
        digit (second.toNat % 16 * 4), ch '=']
  | first :: second :: third :: rest =>
      digit (first.toNat / 4) :: digit (first.toNat % 4 * 16 + second.toNat / 16) ::
        digit (second.toNat % 16 * 4 + third.toNat / 64) :: digit (third.toNat % 64) ::
          digits rest

theorem digits_length (data : Bytes) : (digits data).length = 4 * ((data.length + 2) / 3) := by
  induction data using digits.induct with
  | case1 => rfl
  | case2 first => simp [digits]
  | case3 first second => simp [digits]
  | case4 first second third rest ih =>
      simp only [digits, List.length_cons, ih]
      omega

/-- Break a text into lines; `column` characters of the current one are written. -/
def wrap (width : Nat) : Nat → Bytes → Bytes
  | _, [] => [ch '\n']
  | column, character :: rest =>
      if column = width then ch '\n' :: character :: wrap width 1 rest
      else character :: wrap width (column + 1) rest

theorem wrap_length {width : Nat} (positive : 0 < width) (text : Bytes) (column : Nat)
    (inLine : column ≤ width) (started : 0 < column + text.length) :
    (wrap width column text).length =
      text.length + (column + text.length + (width - 1)) / width := by
  induction text generalizing column with
  | nil =>
      have one : (column + 0 + (width - 1)) / width = 1 := by
        apply Nat.div_eq_of_lt_le
        · simp only [List.length_nil] at started
          omega
        · omega
      simp only [wrap, List.length_cons, List.length_nil, one]
  | cons character rest ih =>
      unfold wrap
      split
      · rename_i full
        have line : column + (rest.length + 1) + (width - 1) =
            1 + rest.length + (width - 1) + width := by omega
        rw [List.length_cons, List.length_cons, ih 1 positive (by omega), List.length_cons, line,
          Nat.add_div_right _ positive]
        omega
      · have next : column + 1 + rest.length = column + (rest.length + 1) := by omega
        rw [List.length_cons, ih (column + 1) (by omega) (by omega), List.length_cons, next]
        omega

/-- Line breaks mean nothing to a function that skips them. -/
theorem filterMap_wrap {Digit : Type} (read : UInt8 → Option Digit)
    (skips : read (ch '\n') = none) (width : Nat) (text : Bytes) (column : Nat) :
    (wrap width column text).filterMap read = text.filterMap read := by
  induction text generalizing column with
  | nil => simp [wrap, skips]
  | cons character rest ih =>
      unfold wrap
      split
      · rw [List.filterMap_cons_none skips, List.filterMap_cons, List.filterMap_cons, ih]
      · rw [List.filterMap_cons, List.filterMap_cons, ih]

def encode (width : Nat) (data : Bytes) : Bytes :=
  wrap width 0 (digits data)

theorem encode_length {width : Nat} (positive : 0 < width) {data : Bytes} (nonempty : data ≠ []) :
    (encode width data).length =
      4 * ((data.length + 2) / 3) + (4 * ((data.length + 2) / 3) + (width - 1)) / width := by
  have some_byte : 0 < data.length := List.length_pos_of_ne_nil nonempty
  unfold encode
  rw [wrap_length positive _ 0 (Nat.zero_le _), digits_length, Nat.zero_add]
  rw [digits_length]
  omega

/-- Four digits to three bytes; the bits of a group that is not full are kept
as far as they make bytes. -/
def pack : List Nat → Bytes
  | first :: second :: third :: fourth :: rest =>
      UInt8.ofNat (first * 4 + second / 16) :: UInt8.ofNat (second % 16 * 16 + third / 4) ::
        UInt8.ofNat (third % 4 * 64 + fourth) :: pack rest
  | [first, second, third] =>
      [UInt8.ofNat (first * 4 + second / 16), UInt8.ofNat (second % 16 * 16 + third / 4)]
  | [first, second] => [UInt8.ofNat (first * 4 + second / 16)]
  | _ => []

def decode (text : Bytes) : Bytes :=
  pack (text.filterMap value)

theorem pack_digits (data : Bytes) : pack ((digits data).filterMap value) = data := by
  have padding : value (ch '=') = none := rfl
  have ofNat_eq : ∀ {number : Nat} {byte : UInt8}, number = byte.toNat →
      UInt8.ofNat number = byte := by
    rintro number byte rfl
    exact UInt8.ofNat_toNat
  induction data using digits.induct with
  | case1 => rfl
  | case2 first =>
      have firstSmall := first.toNat_lt
      simp only [digits, List.filterMap_cons, padding, List.filterMap_nil,
        value_digit (show first.toNat / 4 < 64 by omega),
        value_digit (show first.toNat % 4 * 16 < 64 by omega), pack]
      rw [ofNat_eq (show _ = first.toNat by omega)]
  | case3 first second =>
      have firstSmall := first.toNat_lt
      have secondSmall := second.toNat_lt
      simp only [digits, List.filterMap_cons, padding, List.filterMap_nil,
        value_digit (show first.toNat / 4 < 64 by omega),
        value_digit (show first.toNat % 4 * 16 + second.toNat / 16 < 64 by omega),
        value_digit (show second.toNat % 16 * 4 < 64 by omega), pack]
      rw [ofNat_eq (show _ = first.toNat by omega), ofNat_eq (show _ = second.toNat by omega)]
  | case4 first second third rest ih =>
      have firstSmall := first.toNat_lt
      have secondSmall := second.toNat_lt
      have thirdSmall := third.toNat_lt
      simp only [digits, List.filterMap_cons,
        value_digit (show first.toNat / 4 < 64 by omega),
        value_digit (show first.toNat % 4 * 16 + second.toNat / 16 < 64 by omega),
        value_digit (show second.toNat % 16 * 4 + third.toNat / 64 < 64 by omega),
        value_digit (show third.toNat % 64 < 64 by omega), pack, ih]
      rw [ofNat_eq (show _ = first.toNat by omega), ofNat_eq (show _ = second.toNat by omega),
        ofNat_eq (show _ = third.toNat by omega)]

theorem decode_encode (width : Nat) (data : Bytes) : decode (encode width data) = data := by
  have newline : value (ch '\n') = none := rfl
  rw [decode, encode, filterMap_wrap value newline, pack_digits]

theorem decode_filter (text : Bytes) :
    decode (text.filter inAlphabet) = decode text := by
  have same : (text.filter inAlphabet).filterMap value =
      text.filterMap value := by
    induction text with
    | nil => rfl
    | cons byte rest ih =>
        cases known : value byte with
        | none => simp [inAlphabet, known, ih]
        | some number => simp [inAlphabet, known, ih]
  rw [decode, decode, same]

end Base64

end Libjaypea
